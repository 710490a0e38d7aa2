import CSharpCheck.Grammar.Block
import CSharpCheck.Proofs.Reading.Invariants
import CSharpCheck.Proofs.Reading.Soundness

/-!
# Reading without errors

When a rule reads tokens without an error, what holds of its result and of the tokens that are left
is told without the machine: by what the rule is made of, with invariants for its loops and with
what the nonterminals do for its calls. Every feature that is used on the way is one of those that
may be used. Where an error may be reported, nothing more is told of what comes after it.
-/

namespace CSharpCheck

/-- What holds of the result of a rule and of the tokens that are left. -/
abbrev Post (α : Type) := α → Ahead → Prop

/-- What may come up while tokens are read: the features that may be used, whether the text may be
a script or not, and whether an error may be reported. -/
structure Allowance where
  allowed : Feature → Prop
  mode : Bool → Prop
  faulty : Prop

/-- The terms on which tokens are read: what may come up, the number of all tokens of the text, the
type declarations around, and for every nonterminal, whatever is around it, the tokens that it reads
up to what holds afterwards. -/
structure Terms extends Allowance where
  size : Nat
  around : List TypeKind
  calls : (around : List TypeKind) → (q : Nonterminal) → Post q.Result → Ahead → Prop

namespace Rule

/-- On the terms, the rule reads the tokens without an error, and what it leaves has the
property, or it comes to an error that may be reported. -/
def Reads (T : Terms) : {α : Type} → Rule α → Post α → Ahead → Prop
  | _, pure result, Q, ts => Q result ts
  | _, look next, Q, ts => ∀ previous, (next ⟨T.size - ts.length, previous, ts⟩).Reads T Q ts
  | _, script next, Q, ts => ∀ isScript, T.mode isScript → (next isScript).Reads T Q ts
  | _, enclosing next, Q, ts => (next T.around).Reads T Q ts
  | _, advance count next, Q, ts => count ≤ ts.length ∧ next.Reads T Q (ts.drop count)
  | _, require feature _ next, Q, ts => T.allowed feature ∧ next.Reads T Q ts
  | _, report _ _ _, _, _ => T.faulty
  | _, call q next, Q, ts => T.calls T.around q (fun a us ↦ (next a).Reads T Q us) ts
  | _, @loop _ σ init round next, Q, ts =>
    ∃ I : Post σ, I init ts ∧ ∀ state us, I state us →
      (round state).Reads T (fun outcome vs ↦
        match outcome with
        | .again state => vs.length < us.length ∧ I state vs
        | .stop state => (next state).Reads T Q vs) us
  | _, within kind body next, Q, ts =>
    body.Reads { T with around := kind :: T.around } (fun _ us ↦ next.Reads T Q us) ts

variable {T : Terms} {α β σ : Type} {ts : Ahead}

@[simp] theorem reads_bind (r : Rule α) (f : α → Rule β) (Q : Post β) (ts : Ahead) :
    (r >>= f).Reads T Q ts ↔ r.Reads T (fun a us ↦ (f a).Reads T Q us) ts := by
  change (r.bind f).Reads T Q ts ↔ _
  induction r generalizing ts with
  | pure result => exact Iff.rfl
  | look next ih => exact forall_congr' fun _ ↦ ih _ _ _
  | script next ih => exact forall_congr' fun b ↦ imp_congr_right fun _ ↦ ih b _ _
  | enclosing next ih => exact ih T.around _ _
  | advance count next ih => exact and_congr_right fun _ ↦ ih _ _
  | require feature index next ih => exact and_congr_right fun _ ↦ ih _ _
  | report place error next ih => exact Iff.rfl
  | call q next ih =>
    have hnext : (fun a us ↦ ((next a).bind f).Reads T Q us) =
        fun a us ↦ (next a).Reads T (fun a us ↦ (f a).Reads T Q us) us :=
      funext fun a ↦ funext fun us ↦ propext (ih a f us)
    simp only [Rule.bind, Reads, hnext]
  | loop init round next _ ih =>
    refine exists_congr fun I ↦ and_congr_right fun _ ↦ forall_congr' fun state ↦
      forall_congr' fun us ↦ forall_congr' fun _ ↦ iff_of_eq ?_
    congr 1
    funext outcome vs
    cases outcome with
    | again state => rfl
    | stop state => exact propext (ih state f vs)
  | within kind body next _ ih =>
    have hnext : (fun (_ : Unit) us ↦ (next.bind f).Reads T Q us) =
        fun _ us ↦ next.Reads T (fun a us ↦ (f a).Reads T Q us) us :=
      funext fun _ ↦ funext fun us ↦ propext (ih f us)
    simp only [Rule.bind, Reads, hnext]

@[simp] theorem reads_map (f : α → β) (r : Rule α) (Q : Post β) (ts : Ahead) :
    (f <$> r).Reads T Q ts ↔ r.Reads T (fun a us ↦ Q (f a) us) ts :=
  reads_bind r (fun a ↦ pure (f a)) Q ts

@[simp] theorem reads_pure (a : α) (Q : Post α) :
    (Pure.pure a : Rule α).Reads T Q ts ↔ Q a ts := Iff.rfl

@[simp] theorem reads_result (a : α) (Q : Post α) :
    (pure a : Rule α).Reads T Q ts ↔ Q a ts := Iff.rfl

theorem reads_look (next : View → Rule α) (Q : Post α) :
    (look next).Reads T Q ts ↔
      ∀ previous, (next ⟨T.size - ts.length, previous, ts⟩).Reads T Q ts := Iff.rfl

theorem reads_enclosing (next : List TypeKind → Rule α) (Q : Post α) :
    (enclosing next).Reads T Q ts ↔ (next T.around).Reads T Q ts := Iff.rfl

theorem reads_call (q : Nonterminal) (next : q.Result → Rule α) (Q : Post α) :
    (call q next).Reads T Q ts ↔ T.calls T.around q (fun a us ↦ (next a).Reads T Q us) ts :=
  Iff.rfl

/-! ### Basic rules -/

@[simp] theorem reads_ask (question : Ahead → α) (Q : Post α) :
    (ask question).Reads T Q ts ↔ Q (question ts) ts := by
  simp [ask, Reads]

@[simp] theorem reads_here (Q : Post Nat) : here.Reads T Q ts ↔ Q (T.size - ts.length) ts := by
  simp [here, Reads]

@[simp] theorem reads_next (s : Symbol) (Q : Post Bool) :
    (next s).Reads T Q ts ↔ Q (ts.is s) ts := reads_ask _ _

@[simp] theorem reads_nextOneOf (symbols : List Symbol) (Q : Post Bool) :
    (nextOneOf symbols).Reads T Q ts ↔ Q (ts.isOneOf symbols) ts := reads_ask _ _

@[simp] theorem reads_nextWord (k : Keyword) (Q : Post Bool) :
    (nextWord k).Reads T Q ts ↔ Q (ts.isWord k) ts := reads_ask _ _

@[simp] theorem reads_nextWordOf (words : List Keyword) (Q : Post Bool) :
    (nextWordOf words).Reads T Q ts ↔ Q (ts.isWordOf words) ts := reads_ask _ _

@[simp] theorem reads_nextIdentifier (Q : Post Bool) :
    nextIdentifier.Reads T Q ts ↔ Q ts.isIdentifier ts := reads_ask _ _

@[simp] theorem reads_nextContextual (word : String) (Q : Post Bool) :
    (nextContextual word).Reads T Q ts ↔ Q (ts.isContextual word) ts := reads_ask _ _

@[simp] theorem reads_skip (count : Nat) (Q : Post Unit) :
    (skip count).Reads T Q ts ↔ count ≤ ts.length ∧ Q () (ts.drop count) := Iff.rfl

@[simp] theorem reads_skipToken (t : Token) (Q : Post Unit) :
    skipToken.Reads T Q (t :: ts) ↔ Q () ts := by
  simp [skipToken]

@[simp] theorem reads_requireAt (f : Feature) (index : Nat) (Q : Post Unit) :
    (requireAt f index).Reads T Q ts ↔ T.allowed f ∧ Q () ts := Iff.rfl

@[simp] theorem reads_requireHere (f : Feature) (Q : Post Unit) :
    (requireHere f).Reads T Q ts ↔ T.allowed f ∧ Q () ts := by
  simp [requireHere, reads_look]

theorem reads_requireUses {uses : List ScanUse} (huses : ∀ u ∈ uses, T.allowed u.1) (start : Nat)
    {Q : Post Unit} (h : Q () ts) : (requireUses start uses).Reads T Q ts := by
  induction uses with
  | nil => exact h
  | cons u uses ih =>
    rw [List.forall_mem_cons] at huses
    exact ⟨huses.1, ih huses.2⟩

/-! ### Words and symbols that come next -/

/-- A token that answers the question with yes is passed over, any other is left. -/
theorem reads_acceptIf (question : Ahead → Bool) (Q : Post Bool) :
    (acceptIf question).Reads T Q ts ↔
      if question ts then 1 ≤ ts.length ∧ Q true (ts.drop 1) else Q false ts := by
  simp only [acceptIf, reads_bind, reads_ask]
  split
  · simp [skipToken]
  · simp

@[simp] theorem reads_accept (s : Symbol) (t : Token) (Q : Post Bool) :
    (accept s).Reads T Q (t :: ts) ↔ if t.is s then Q true ts else Q false (t :: ts) := by
  simp [accept, reads_acceptIf, Ahead.is]

@[simp] theorem reads_acceptWord (k : Keyword) (t : Token) (Q : Post Bool) :
    (acceptWord k).Reads T Q (t :: ts) ↔ if t.isWord k then Q true ts else Q false (t :: ts) := by
  simp [acceptWord, reads_acceptIf, Ahead.isWord]

theorem reads_expectIf {question : Ahead → Bool} {e : GrammarError} {t : Token} {Q : Post Bool}
    (ht : question (t :: ts) = true) (h : Q true ts) :
    (expectIf question e).Reads T Q (t :: ts) := by
  simp [expectIf, reads_acceptIf, ht, h]

theorem reads_expect {s : Symbol} {t : Token} {Q : Post Bool} (ht : t.is s = true)
    (h : Q true ts) : (expect s).Reads T Q (t :: ts) :=
  reads_expectIf (by simpa [Ahead.is] using ht) h

theorem reads_need {s : Symbol} {t : Token} {Q : Post Unit} (ht : t.is s = true) (h : Q () ts) :
    (need s).Reads T Q (t :: ts) := by
  simpa [need] using reads_expect (Q := fun _ us ↦ Q () us) ht h

/-- A symbol that is missing is reported. -/
theorem reads_need_missing {s : Symbol} {Q : Post Unit} (hs : ts.is s = false) (h : T.faulty) :
    (need s).Reads T Q ts := by
  simp only [need, expect, expectIf, reads_bind, reads_acceptIf, hs, Bool.false_eq_true, if_false]
  exact h

theorem reads_needWord {k : Keyword} {t : Token} {Q : Post Unit} (ht : t.isWord k = true)
    (h : Q () ts) : (needWord k).Reads T Q (t :: ts) := by
  simp only [needWord, reads_bind]
  exact reads_expectIf (by simp [Ahead.isWord, ht]) (by simpa using h)

theorem reads_expectIdentifier {t : Token} {Q : Post Bool} (ht : t.isIdentifier = true)
    (h : Q true ts) : expectIdentifier.Reads T Q (t :: ts) :=
  reads_expectIf (by simpa [Ahead.isIdentifier] using ht) h

theorem reads_needIdentifier {t : Token} {Q : Post Unit} (ht : t.isIdentifier = true)
    (h : Q () ts) : needIdentifier.Reads T Q (t :: ts) := by
  simpa [needIdentifier] using reads_expectIdentifier (Q := fun _ us ↦ Q () us) ht h

/-! ### Types -/

/-- A type that is found is read if the features that show on the way may be used. -/
theorem reads_type {stop : Nat} {Q : Post Bool} (hstop : ts.typeEnd = some stop)
    (huses : ∀ u ∈ (ts.typeScan false).uses, T.allowed u.1) (hlength : stop ≤ ts.length)
    (h : Q true (ts.drop stop)) : (type false).Reads T Q ts := by
  intro previous
  rw [Ahead.typeEnd] at hstop
  simp only [hstop, reads_bind]
  exact reads_requireUses huses _ ⟨hlength, h⟩

theorem reads_needType {stop : Nat} {Q : Post Unit} (hstop : ts.typeEnd = some stop)
    (huses : ∀ u ∈ (ts.typeScan false).uses, T.allowed u.1) (hlength : stop ≤ ts.length)
    (h : Q () (ts.drop stop)) : needType.Reads T Q ts := by
  rw [needType, reads_bind]
  exact reads_type hstop huses hlength h

/-! ### Repetition -/

/-- A repetition keeps its invariant in every round that asks for another one. -/
theorem reads_repeating {round : Rule Bool} (I : Ahead → Prop) {Q : Post Unit} (hinit : I ts)
    (hround : ∀ us, I us → round.Reads T (fun again vs ↦
      if again then vs.length < us.length ∧ I vs else Q () vs) us) :
    (repeating round).Reads T Q ts := by
  refine ⟨fun _ ↦ I, hinit, fun _ us hus ↦ ?_⟩
  rw [reads_bind]
  refine (iff_of_eq (congrArg (round.Reads T · us) ?_)).1 (hround us hus)
  funext again vs
  cases again <;> simp [Reads]

/-- Items with commas between them are read, each up to a comma before the next one. -/
theorem reads_commaSeparated {item : Rule Unit} (I : Ahead → Prop) {Q : Post Unit} (hinit : I ts)
    (hitem : ∀ us, I us → item.Reads T (fun _ vs ↦ (accept .comma).Reads T (fun again ws ↦
      if again then ws.length < us.length ∧ I ws else Q () ws) vs) us) :
    (commaSeparated item).Reads T Q ts :=
  reads_repeating I hinit fun us hus ↦ by
    rw [reads_bind]
    exact hitem us hus

/-- A body is repeated while the tokens ahead answer the question with yes. -/
theorem reads_whileAhead {question : Ahead → Bool} {body : Rule Unit} (I : Ahead → Prop)
    {Q : Post Unit} (hinit : I ts)
    (hround : ∀ us, I us → question us = true →
      body.Reads T (fun _ vs ↦ vs.length < us.length ∧ I vs) us)
    (hstop : ∀ us, I us → question us = false → Q () us) :
    (whileAhead question body).Reads T Q ts :=
  reads_repeating I hinit fun us hus ↦ by
    rw [reads_bind, reads_ask]
    cases hquestion : question us with
    | true => simpa using hround us hus hquestion
    | false => simpa using hstop us hus hquestion

/-- A body that is read once is repeated no more if the question is answered with no behind it. What
holds behind the body holds at the end. -/
theorem reads_whileAhead_once (rest : Ahead) (condition : Prop) {question : Ahead → Bool}
    {body : Rule Unit} {Q : Post Unit} (hts : question ts = true) (hrest : question rest = false)
    (hlength : rest.length < ts.length)
    (hbody : ∀ Q : Post Unit, (condition → Q () rest) → body.Reads T Q ts)
    (hQ : condition → Q () rest) : (whileAhead question body).Reads T Q ts := by
  refine reads_whileAhead (fun us ↦ us = ts ∨ (us = rest ∧ condition)) (.inl rfl) ?_ ?_
  · rintro _ (rfl | ⟨rfl, -⟩) hquestion
    · exact hbody _ fun hcondition ↦ ⟨hlength, .inr ⟨rfl, hcondition⟩⟩
    · simp [hrest] at hquestion
  · rintro _ (rfl | ⟨rfl, hcondition⟩) hquestion
    · simp [hts] at hquestion
    · exact hQ hcondition

/-- A rule that reads tokens moves on. -/
theorem reads_moves {rule : Rule Unit} {Q : Post Bool} {rest : Ahead} {condition : Prop}
    (hsize : ts.length ≤ T.size) (hlength : rest.length < ts.length)
    (hrule : ∀ Q : Post Unit, (condition → Q () rest) → rule.Reads T Q ts)
    (hQ : condition → Q true rest) : (moves rule).Reads T Q ts := by
  have hmoves : (T.size - ts.length != T.size - rest.length) = true := by
    rw [bne_iff_ne]
    omega
  simp only [moves, reads_bind, reads_here, reads_pure]
  refine hrule _ fun hcondition ↦ ?_
  rw [hmoves]
  exact hQ hcondition

theorem reads_statementOrRecover {rule : Rule Unit} {Q : Post Unit} {rest : Ahead}
    {condition : Prop} (hsize : ts.length ≤ T.size) (hlength : rest.length < ts.length)
    (hrule : ∀ Q : Post Unit, (condition → Q () rest) → rule.Reads T Q ts)
    (hQ : condition → Q () rest) : (statementOrRecover rule).Reads T Q ts := by
  rw [statementOrRecover, reads_bind]
  exact reads_moves hsize hlength hrule hQ

end Rule

/-- The terms on which the nonterminals are read when `room` levels of nesting are left. -/
def Rules.terms (rules : Rules) (A : Allowance) (size : Nat) :
    (room : Nat) → (around : List TypeKind) → Terms
  | 0, around => ⟨A, size, around, fun _ _ _ _ ↦ False⟩
  | room + 1, around =>
    ⟨A, size, around, fun around q Q ts ↦ (rules q).Reads (rules.terms A size room around) Q ts⟩

section

variable (rules : Rules) (A : Allowance) (size room : Nat) (around : List TypeKind)

@[simp] theorem Rules.toAllowance_terms : (rules.terms A size room around).toAllowance = A := by
  cases room <;> rfl

@[simp] theorem Rules.size_terms : (rules.terms A size room around).size = size := by
  cases room <;> rfl

@[simp] theorem Rules.around_terms : (rules.terms A size room around).around = around := by
  cases room <;> rfl

end

/-! ### What is left -/

namespace Rule

private theorem later_of_calls {T : Terms}
    (hcalls : ∀ around (q : Nonterminal) (Q Q' : Post q.Result) (ts : Ahead),
      T.calls around q Q ts → (∀ a us, us <:+ ts → Q a us → Q' a us) → T.calls around q Q' ts)
    {α : Type} {r : Rule α} {Q Q' : Post α} {ts : Ahead} (h : r.Reads T Q ts)
    (hQ : ∀ a us, us <:+ ts → Q a us → Q' a us) : r.Reads T Q' ts := by
  induction r generalizing T ts with
  | pure result => exact hQ result ts (List.suffix_refl ts) h
  | look next ih => exact fun previous ↦ ih _ hcalls (h previous) hQ
  | script next ih => exact fun isScript hmode ↦ ih _ hcalls (h isScript hmode) hQ
  | enclosing next ih => exact ih _ hcalls h hQ
  | advance count next ih =>
    exact ⟨h.1, ih hcalls h.2 fun a us hus ↦ hQ a us (hus.trans (List.drop_suffix count ts))⟩
  | require feature index next ih => exact ⟨h.1, ih hcalls h.2 hQ⟩
  | report place error next ih => exact h
  | call q next ih =>
    exact hcalls _ q _ _ ts h fun a us hus hnext ↦
      ih a hcalls hnext fun b vs hvs ↦ hQ b vs (hvs.trans hus)
  | loop init round next ihr ihn =>
    obtain ⟨I, hinit, hround⟩ := h
    refine ⟨fun state us ↦ us <:+ ts ∧ I state us, ⟨List.suffix_refl ts, hinit⟩, ?_⟩
    rintro state us ⟨hus, hI⟩
    refine ihr state hcalls (hround state us hI) fun outcome vs hvs houtcome ↦ ?_
    cases outcome with
    | again state => exact ⟨houtcome.1, hvs.trans hus, houtcome.2⟩
    | stop state =>
      exact ihn state hcalls houtcome fun a ws hws ↦ hQ a ws (hws.trans (hvs.trans hus))
  | within kind body next ihb ihn =>
    exact ihb (T := { T with around := kind :: T.around }) hcalls h fun _ us hus hnext ↦
      ihn hcalls hnext fun a vs hvs ↦ hQ a vs (hvs.trans hus)

/-- What a rule leaves is the end of what was there. -/
theorem Reads.later {rules : Rules} {A : Allowance} {size room : Nat} {around : List TypeKind}
    {α : Type} {r : Rule α} {Q Q' : Post α} {ts : Ahead}
    (h : r.Reads (rules.terms A size room around) Q ts)
    (hQ : ∀ a us, us <:+ ts → Q a us → Q' a us) :
    r.Reads (rules.terms A size room around) Q' ts := by
  induction room generalizing around α r Q Q' ts with
  | zero => exact later_of_calls (fun _ _ _ _ _ h _ ↦ h) h hQ
  | succ room ih => exact later_of_calls (fun _ _ _ _ _ h hQ ↦ ih h hQ) h hQ

end Rule

/-! ### The machine -/

/-- Nothing has been found but uses of features that may be used, and the reading goes on. -/
structure Progress.Clear (allowed : Feature → Prop) (stream : TokenStream) (p : Progress) :
    Prop where
  abandonedAt : p.abandonedAt = none
  charged : p.charged = false
  found : ∀ x ∈ p.found, ∃ f : Feature, x.cause = .use f ∧ allowed f
  index_eq : p.index + p.ahead.length = stream.tokens.size

namespace Progress.Clear

variable {allowed : Feature → Prop} {stream : TokenStream} {p : Progress}

theorem start (stream : TokenStream) : (Progress.start stream).Clear allowed stream where
  abandonedAt := rfl
  charged := rfl
  found := by simp [Progress.start]
  index_eq := by simp [Progress.start]

theorem advance (h : p.Clear allowed stream) {count : Nat} (hcount : count ≤ p.ahead.length) :
    (p.advance count).Clear allowed stream where
  abandonedAt := (p.abandonedAt_advance count).trans h.abandonedAt
  charged := charged_advance h.charged count
  found := by
    rw [found_advance]
    exact h.found
  index_eq := by
    have hindex := h.index_eq
    rw [index_advance, ahead_advance, List.length_drop]
    omega

theorem note (h : p.Clear allowed stream) {f : Feature} (hf : allowed f) (span : Span) :
    (p.note ⟨.use f, span⟩).Clear allowed stream where
  abandonedAt := h.abandonedAt
  charged := h.charged
  found := List.forall_mem_cons.2 ⟨⟨f, rfl, hf⟩, h.found⟩
  index_eq := h.index_eq

theorem index (h : p.Clear allowed stream) : p.index = stream.tokens.size - p.ahead.length := by
  have hindex := h.index_eq
  omega

end Progress.Clear

/-- Where nothing but uses of features has been found, an error is reported. -/
theorem Progress.Clear.faulty_report {allowed : Feature → Prop} {stream : TokenStream}
    {p : Progress} (h : p.Clear allowed stream) (place : ErrorPlace) (e : GrammarError) :
    (p.report stream place e).Faulty := by
  rw [report, if_neg (by simp [h.charged, h.abandonedAt])]
  exact ⟨_, List.mem_cons_self, e, rfl⟩

namespace Rule

variable {A : Allowance} {stream : TokenStream}

/-- A run ends with nothing found but uses of features that may be used, and with the property, or
with an error that may be reported. -/
def Achieves (A : Allowance) (stream : TokenStream) {α : Type} (Q : Post α)
    (end_ : α × Progress) : Prop :=
  (end_.2.Clear A.allowed stream ∧ Q end_.1 end_.2.ahead) ∨ (A.faulty ∧ end_.2.Faulty)

private theorem achieves_rounds {σ : Type} {round : σ → Progress → Round σ × Progress}
    {I Q : Post σ}
    (hround : ∀ state p, p.Clear A.allowed stream → I state p.ahead →
      Achieves A stream (fun outcome vs ↦
        match outcome with
        | .again state => vs.length < p.ahead.length ∧ I state vs
        | .stop state => Q state vs) (round state p))
    (hfaulty : ∀ state p, p.Faulty → (round state p).2.Faulty) :
    ∀ (limit : Nat) (state : σ) (p : Progress), p.Clear A.allowed stream → I state p.ahead →
      p.ahead.length < limit → Achieves A stream Q (rounds round limit state p) := by
  intro limit
  induction limit with
  | zero => exact fun _ _ _ _ hlimit ↦ absurd hlimit (Nat.not_lt_zero _)
  | succ limit ih =>
    intro state p hp hI hlimit
    have hone := hround state p hp hI
    rw [rounds]
    generalize round state p = end_ at hone ⊢
    obtain ⟨outcome, q⟩ := end_
    rcases hone with ⟨hq, hone⟩ | ⟨hallowed, hq⟩
    · cases outcome with
      | stop final => exact .inl ⟨hq, hone⟩
      | again state' =>
        obtain ⟨hless, hI'⟩ := hone
        have hp' := hp.index_eq
        have hq' := hq.index_eq
        simp only at hless hI' hq' ⊢
        rw [if_pos (by omega)]
        exact ih state' q hq hI' (by omega)
    · refine .inr ⟨hallowed, ?_⟩
      cases outcome with
      | stop final => exact hq
      | again state' =>
        simp only
        split
        · exact rounds_invariant hfaulty limit hq
        · exact hq

private theorem achieves_of_enter
    {enter : Surroundings → (q : Nonterminal) → Progress → q.Result × Progress} {T : Terms}
    (hallowance : T.toAllowance = A) (hsize : T.size = stream.tokens.size)
    (henter : ∀ around q p (Q : Post q.Result), around.stream = stream → A.mode around.script →
      p.Clear A.allowed stream → T.calls around.enclosing q Q p.ahead →
      Achieves A stream Q (enter around q p))
    (hfaulty : ∀ around q p, around.stream = stream → p.Faulty → (enter around q p).2.Faulty)
    {α : Type} (r : Rule α) {Q : Post α} {around : Surroundings} {p : Progress}
    (haround : T.around = around.enclosing) (hstream : around.stream = stream)
    (hmode : A.mode around.script) (hp : p.Clear A.allowed stream) (h : r.Reads T Q p.ahead) :
    Achieves A stream Q (r.runWith enter around p) := by
  have hkept {β : Type} (r : Rule β) {around : Surroundings} (hstream : around.stream = stream)
      {p : Progress} (hp : p.Faulty) : (r.runWith enter around p).2.Faulty :=
    r.runWith_invariant (Progress.invariant_faulty stream) hfaulty hstream hp
  induction r generalizing T p around with
  | pure result => exact .inl ⟨hp, h⟩
  | look next ih =>
    refine ih _ hallowance hsize henter haround hstream hmode hp ?_
    have hlook := h (p.previous around.stream)
    rwa [hsize, ← hp.index] at hlook
  | script next ih =>
    exact ih _ hallowance hsize henter haround hstream hmode hp (h _ (hallowance ▸ hmode))
  | enclosing next ih =>
    exact ih _ hallowance hsize henter haround hstream hmode hp (haround ▸ h)
  | advance count next ih =>
    refine ih hallowance hsize henter haround hstream hmode (hp.advance h.1) ?_
    rw [Progress.ahead_advance]
    exact h.2
  | require feature index next ih =>
    exact ih hallowance hsize henter haround hstream hmode (hp.note (hallowance ▸ h.1) _) h.2
  | report place error next ih =>
    refine .inr ⟨hallowance ▸ h, hkept next hstream ?_⟩
    rw [hstream]
    exact hp.faulty_report place error
  | call q next ih =>
    rw [reads_call, haround] at h
    rcases henter around q p _ hstream hmode hp h with ⟨hq, hnext⟩ | ⟨hallowed, hq⟩
    · exact ih _ hallowance hsize henter haround hstream hmode hq hnext
    · exact .inr ⟨hallowed, hkept (next _) hstream hq⟩
  | loop init round next ihr ihn =>
    obtain ⟨I, hinit, hround⟩ := h
    have hindex := hp.index_eq
    have hrounds := achieves_rounds (Q := fun state us ↦ (next state).Reads T Q us)
      (fun state p hp hI ↦
        ihr state hallowance hsize henter haround hstream hmode hp (hround state p.ahead hI))
      (fun state p hp ↦ hkept (round state) hstream hp)
      around.stream.size init p hp hinit (by rw [hstream, TokenStream.size]; omega)
    rcases hrounds with ⟨hq, hnext⟩ | ⟨hallowed, hq⟩
    · exact ihn _ hallowance hsize henter haround hstream hmode hq hnext
    · exact .inr ⟨hallowed, hkept (next _) hstream hq⟩
  | within kind body next ihb ihn =>
    have hinside : kind :: T.around = kind :: around.enclosing := by rw [haround]
    have hstream' : Surroundings.stream { around with enclosing := kind :: around.enclosing } =
        stream := hstream
    rcases ihb (T := { T with around := kind :: T.around }) hallowance hsize henter
      hinside hstream' hmode hp h with ⟨hq, hnext⟩ | ⟨hallowed, hq⟩
    · exact ihn hallowance hsize henter haround hstream hmode hq hnext
    · exact .inr ⟨hallowed, hkept next hstream hq⟩

/-- What a rule reads without errors is read so by the machine. -/
theorem Reads.achieves {rules : Rules} {room : Nat} {α : Type} {r : Rule α} {Q : Post α}
    {around : Surroundings} {p : Progress} (hstream : around.stream = stream)
    (hmode : A.mode around.script) (hp : p.Clear A.allowed stream)
    (h : r.Reads (rules.terms A stream.tokens.size room around.enclosing) Q p.ahead) :
    Achieves A stream Q (r.runWith (rules.enter room) around p) := by
  have hfaulty (room : Nat) (around : Surroundings) (q : Nonterminal) (p : Progress)
      (hstream : around.stream = stream) (hp : p.Faulty) :
      (rules.enter room around q p).2.Faulty :=
    rules.enter_invariant (Progress.invariant_faulty stream) room around q p hstream hp
  induction room generalizing α r Q around p with
  | zero =>
    exact achieves_of_enter (T := rules.terms A stream.tokens.size 0 around.enclosing) rfl
      rfl (fun _ _ _ _ _ _ _ h ↦ absurd h id) (hfaulty 0) r rfl hstream hmode hp h
  | succ room ih =>
    refine achieves_of_enter
      (T := rules.terms A stream.tokens.size (room + 1) around.enclosing) rfl rfl
      (fun around q p Q hstream hmode hp h ↦ ?_) (hfaulty (room + 1)) r rfl hstream hmode hp h
    rw [Rules.enter, hp.abandonedAt]
    exact ih hstream hmode hp h

end Rule

end CSharpCheck
