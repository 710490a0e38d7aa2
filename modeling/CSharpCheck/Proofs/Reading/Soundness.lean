import CSharpCheck.Proofs.Reading.Invariants
import CSharpCheck.Proofs.Reading.Logic
import CSharpCheck.Proofs.Reading.Steps

/-!
# The logic is sound

What a rule ensures holds when a machine runs it, if the rules of all nonterminals keep the
brackets. The bounds that the machine sets to loops are never felt: the reading step by step, which
has no such bounds, comes to the same end.
-/

namespace CSharpCheck

namespace Progress

theorem ahead_advance (p : Progress) (count : Nat) :
    (p.advance count).ahead = p.ahead.drop count := by
  cases count with
  | zero => simp [advance]
  | succ count =>
    cases h : p.ahead with
    | nil => simp [advance, h]
    | cons t ahead =>
      simp only [advance, h, List.drop_succ_cons, List.length_take]
      rcases Nat.le_total count ahead.length with hle | hle
      · rw [Nat.min_eq_left hle]
      · rw [Nat.min_eq_right hle, List.drop_length, List.drop_eq_nil_of_le hle]

theorem index_advance (p : Progress) (count : Nat) :
    (p.advance count).index = p.index + min count p.ahead.length := by
  cases count with
  | zero => simp [advance]
  | succ count =>
    cases h : p.ahead with
    | nil => simp [advance, h]
    | cons t ahead =>
      simp only [advance, h, List.length_take, List.length_cons]
      omega

theorem found_advance (p : Progress) (count : Nat) : (p.advance count).found = p.found := by
  unfold advance
  split <;> rfl

theorem abandonedAt_advance (p : Progress) (count : Nat) :
    (p.advance count).abandonedAt = p.abandonedAt := by
  unfold advance
  split <;> rfl

/-- A jump that stays within the text is heedless of its end only in appearance. -/
theorem jump_eq_advance {p : Progress} {count : Nat}
    (h : count ≤ 1 ∨ count ≤ p.ahead.length) : p.jump count = p.advance count := by
  unfold jump
  split
  · next hone => rw [hone]
  · next hone =>
    cases count with
    | zero => simp [advance]
    | succ count =>
      cases hahead : p.ahead with
      | nil => simp [hahead] at h; omega
      | cons t ahead =>
        have hle : count ≤ ahead.length := by
          simp only [hahead, List.length_cons] at h
          omega
        simp [advance, hahead, Nat.min_eq_left hle]
        omega

theorem charged_advance {p : Progress} (h : p.charged = false) (count : Nat) :
    (p.advance count).charged = false := by
  unfold advance
  split
  · exact h
  · exact h
  · rfl

end Progress

/-- A rule of the grammar has been found broken. -/
def Progress.Faulty (p : Progress) : Prop := ∃ f ∈ p.found, ∃ e, f.cause = .grammar e

/-- An error that has been found is not forgotten. -/
theorem Progress.invariant_faulty (stream : TokenStream) :
    Progress.Invariant stream Progress.Faulty where
  advance p h count := by rwa [Faulty, found_advance]
  use p h feature index := h.imp fun _ hx ↦ ⟨List.mem_cons_of_mem _ hx.1, hx.2⟩
  report p h place e := by
    unfold report
    split
    · exact h
    · exact h.imp fun _ hx ↦ ⟨List.mem_cons_of_mem _ hx.1, hx.2⟩
  abandon p h := h.imp fun _ hx ↦ ⟨List.mem_cons_of_mem _ hx.1, hx.2⟩

theorem Progress.faulty_abandon (p : Progress) (stream : TokenStream) :
    (p.abandon stream).Faulty := ⟨_, List.mem_cons_self, _, rfl⟩

/-- Nothing makes up for a broken rule. -/
theorem Rule.faulty_runWith {α : Type} (r : Rule α) {room : Nat} {around : Surroundings}
    {p : Progress} (hp : p.Faulty) : (r.runWith (grammarRules.enter room) around p).2.Faulty :=
  runWith_invariant (Progress.invariant_faulty around.stream)
    (Rules.enter_invariant (Progress.invariant_faulty around.stream) _ _) r rfl hp

/-- The features of the tokens before the place have been found where they need to be. -/
def Watch.FoundBefore (w : Watch) (stream : TokenStream) (place : Nat) (found : List Finding) :
    Prop :=
  ∀ i < place, ∀ t, stream.tokens[i]? = some t → t.kind.bearsFeatures = true → ∀ f ∈ t.features,
    w.allowed f ∨ ⟨.use f, t.span⟩ ∈ found

/-- The progress of a machine in a text is at the place. Where no error has been found, brackets,
groups, calling conventions and features of the text are as they should be; where one has been found
it has been noted, unless it is `excused`. -/
structure Spot.Describes (s : Spot) (stream : TokenStream) (excused : Prop) (p : Progress) :
    Prop where
  index : p.index = s.index
  ahead : p.ahead = s.ahead
  index_le : s.index ≤ stream.tokens.size
  ahead_eq : s.ahead = stream.tokens.toList.drop s.index
  clean : ∀ b, s.brackets = some b → p.charged = false ∧ p.abandonedAt = none ∧
    Brackets.after [] (stream.tokens.toList.take s.index) = some b ∧
    CompletesGroups [] stream.tokens.toList ∧ ConventionsBracketed stream.tokens.toList
  watched : ∀ w, s.watch = some w → p.charged = false ∧ p.abandonedAt = none ∧
    w.FoundBefore stream s.index p.found ∧
    (∀ use ∈ w.noted, ⟨.use use.1, (stream.token use.2).span⟩ ∈ p.found) ∧
    Conventions (fun ts ↦ ∀ t ∈ ts, w.Allows t) stream.tokens.toList
  faulty : s.Failed → excused ∨ p.Faulty

namespace Spot.Describes

variable {s : Spot} {stream : TokenStream} {excused : Prop} {p : Progress}

theorem length_ahead (h : s.Describes stream excused p) :
    s.ahead.length = stream.tokens.size - s.index := by
  rw [h.ahead_eq, List.length_drop, Array.length_toList]

/-- Nothing but a finding or the charge has changed. -/
theorem congr {q : Progress} (h : s.Describes stream excused p) (hindex : q.index = p.index)
    (hahead : q.ahead = p.ahead) (hcharged : q.charged = p.charged)
    (habandoned : q.abandonedAt = p.abandonedAt) (hfound : p.found ⊆ q.found) :
    s.Describes stream excused q where
  index := hindex.trans h.index
  ahead := hahead.trans h.ahead
  index_le := h.index_le
  ahead_eq := h.ahead_eq
  clean b hb := by
    rw [hcharged, habandoned]
    exact h.clean b hb
  watched w hw := by
    rw [hcharged, habandoned]
    obtain ⟨hquiet, hgoing, hbefore, hnoted, hconventions⟩ := h.watched w hw
    exact ⟨hquiet, hgoing, fun i hi t ht hbears f hf ↦
      (hbefore i hi t ht hbears f hf).imp_right (hfound ·), fun use huse ↦ hfound (hnoted use huse),
      hconventions⟩
  faulty hs := (h.faulty hs).imp_right fun ⟨f, hf, herror⟩ ↦ ⟨f, hfound hf, herror⟩

theorem pass (h : s.Describes stream excused p) {count : Nat} (hpass : s.Passable count) :
    (s.pass count).Describes stream excused (p.advance count) where
  index := by rw [Progress.index_advance, h.index, h.ahead]; rfl
  ahead := by rw [Progress.ahead_advance, h.ahead]; rfl
  index_le := by
    have hlength := h.length_ahead
    have hle := h.index_le
    simp only [Spot.pass]
    omega
  ahead_eq := by
    obtain ⟨n, -, hindex, hahead⟩ := (s.precedes_pass count).moved
    rw [hahead, h.ahead_eq, hindex, List.drop_drop]
  clean b hb := by
    obtain ⟨before, hbefore, hafter⟩ := Option.bind_eq_some_iff.1 hb
    obtain ⟨hcharged, habandoned, hopen, htext⟩ := h.clean before hbefore
    refine ⟨Progress.charged_advance hcharged count,
      (Progress.abandonedAt_advance p count).trans habandoned, ?_, htext⟩
    have htake : stream.tokens.toList.take (s.pass count).index =
        stream.tokens.toList.take s.index ++ s.ahead.take count := by
      rw [Spot.pass, List.take_add, h.ahead_eq, ← List.take_eq_take_min]
    rw [htake, Brackets.after_append, hopen]
    exact hafter
  watched w hw := by
    obtain ⟨hcharged, habandoned, hbefore, hnoted, hconventions⟩ := h.watched w hw
    rw [Progress.found_advance]
    refine ⟨Progress.charged_advance hcharged count,
      (Progress.abandonedAt_advance p count).trans habandoned, fun i hi t ht hbears f hf ↦ ?_,
      hnoted, hconventions⟩
    by_cases hpassed : i < s.index
    · exact hbefore i hpassed t ht hbears f hf
    -- The token is one of those that are passed over now.
    have hi' : i < s.index + min count s.ahead.length := hi
    have hnext : s.ahead[i - s.index]? = some t := by
      rw [h.ahead_eq, List.getElem?_drop, Nat.add_sub_cancel' (by omega), Array.getElem?_toList]
      exact ht
    have hadmits := hpass.admitted w hw (i - s.index) (by omega) t hnext hbears f hf
    rw [Nat.add_sub_cancel' (by omega)] at hadmits
    refine hadmits.imp_right fun hmem ↦ ?_
    have hfound := hnoted _ hmem
    rwa [TokenStream.token, ht] at hfound
  faulty hs := by
    rw [Progress.Faulty, Progress.found_advance]
    refine h.faulty ⟨?_, hs.2⟩
    cases hbrackets : s.brackets with
    | none => rfl
    | some b =>
      have hafter := hpass.matching b hbrackets
      have hnone := hs.1
      simp [Spot.pass, hbrackets] at hnone
      simp [hnone] at hafter

theorem legible (h : s.Describes stream excused p) : s.Legible where
  brackets b hb := by
    obtain ⟨-, -, hafter, hgroups, hconventions⟩ := h.clean b hb
    rw [h.ahead_eq]
    rw [← List.take_append_drop s.index stream.tokens.toList] at hgroups
    exact ⟨hgroups.drop hafter, Conventions.drop hconventions _⟩
  watch w hw := by
    obtain ⟨-, -, -, -, hconventions⟩ := h.watched w hw
    rw [h.ahead_eq]
    exact hconventions.drop _

/-- Noting a feature. -/
theorem note (h : s.Describes stream excused p) (f : Feature) (place : Nat) :
    (s.note f place).Describes stream excused (p.note ⟨.use f, (stream.token place).span⟩) where
  index := h.index
  ahead := h.ahead
  index_le := h.index_le
  ahead_eq := h.ahead_eq
  clean := h.clean
  watched w hw := by
    obtain ⟨v, hv, rfl⟩ := Option.map_eq_some_iff.1 hw
    obtain ⟨hcharged, habandoned, hbefore, hnoted, hconventions⟩ := h.watched v hv
    refine ⟨hcharged, habandoned, fun i hi t ht hbears f hf ↦
      (hbefore i hi t ht hbears f hf).imp_right (List.mem_cons_of_mem _), ?_, hconventions⟩
    exact List.forall_mem_cons.2 ⟨List.mem_cons_self, fun use huse ↦
      List.mem_cons_of_mem _ (hnoted use huse)⟩
  faulty hs := by
    refine (h.faulty ⟨hs.1, Option.map_eq_none_iff.1 hs.2⟩).imp_right ?_
    rintro ⟨x, hx, herror⟩
    exact ⟨x, List.mem_cons_of_mem _ hx, herror⟩

theorem fail (h : s.Describes stream excused p) {q : Progress} (hindex : q.index = p.index)
    (hahead : q.ahead = p.ahead) (hfaulty : excused ∨ q.Faulty) :
    s.fail.Describes stream excused q where
  index := hindex.trans h.index
  ahead := hahead.trans h.ahead
  index_le := h.index_le
  ahead_eq := h.ahead_eq
  clean b hb := by simp [Spot.fail] at hb
  watched w hw := by simp [Spot.fail] at hw
  faulty _ := hfaulty

theorem report (h : s.Describes stream excused p) (place : ErrorPlace) (error : GrammarError) :
    s.fail.Describes stream excused (p.report stream place error) := by
  unfold Progress.report
  split
  · next hquiet =>
    refine h.fail rfl rfl (h.faulty ⟨?_, ?_⟩)
    · rw [Option.eq_none_iff_forall_ne_some]
      intro b hb
      obtain ⟨hcharged, habandoned, -⟩ := h.clean b hb
      simp [hcharged, habandoned] at hquiet
    · rw [Option.eq_none_iff_forall_ne_some]
      intro w hw
      obtain ⟨hcharged, habandoned, -⟩ := h.watched w hw
      simp [hcharged, habandoned] at hquiet
  · exact h.fail rfl rfl (.inr ⟨_, List.mem_cons_self, error, rfl⟩)

/-- The place at the end of the text at which the reading is abandoned. -/
theorem abandon (h : s.Describes stream excused p) :
    ∃ t, t.Describes stream excused (p.abandon stream) ∧ s.Leads t := by
  refine ⟨⟨stream.tokens.size, [], none, none⟩, ⟨rfl, rfl, Nat.le_refl _, ?_, ?_, ?_, ?_⟩,
    ⟨⟨s.ahead.length, Nat.le_refl _, ?_, ?_⟩, fun _ ↦ rfl, ?_⟩, ?_⟩
  · rw [← Array.length_toList, List.drop_length]
  · intro b hb
    contradiction
  · intro w hw
    contradiction
  · exact fun _ ↦ .inr ⟨_, List.mem_cons_self, .tooComplex, rfl⟩
  · have hle := h.index_le
    rw [h.length_ahead]
    show stream.tokens.size = _
    omega
  · rw [List.drop_length]
  · intro w hw
    contradiction
  · intro open_ _ b hb
    contradiction

/-- A step between places that are described, from the one in front to the one behind. -/
theorem forward {t : Spot} {rules : Rules} {β : Type} {m n : Moment β}
    (hs : s.Describes stream excused m.progress) (ht : t.Describes stream excused n.progress)
    (hindex : s.index ≤ t.index) (hstream : n.around.stream = stream)
    (h : Moment.Next rules m n)
    (hcharge : ∀ c, m.charge? = some c → c.2.cause ≠ .grammar .tooComplex) :
    Moment.Forward rules m n where
  next := h
  index_le := by
    rw [hs.index, ht.index]
    exact hindex
  within := by
    rw [ht.index, hstream]
    exact ht.index_le
  charge := hcharge

/-- A step that leaves the progress as it is. -/
theorem still {rules : Rules} {β α γ : Type} {r : Rule α} {r' : Rule γ} {k : Continuation β α}
    {k' : Continuation β γ} {around around' : Surroundings} {depth depth' : Nat}
    (hs : s.Describes stream excused p) (hstream : around'.stream = stream)
    (h : Moment.Next rules ⟨r, k, around, p, depth⟩ ⟨r', k', around', p, depth'⟩)
    (hcharge : Moment.charge? ⟨r, k, around, p, depth⟩ = none) :
    Moment.Forward rules ⟨r, k, around, p, depth⟩ ⟨r', k', around', p, depth'⟩ :=
  forward hs hs (Nat.le_refl _) hstream h fun c hc ↦ by simp [hcharge] at hc

end Spot.Describes

/-- The rules of all nonterminals keep the brackets, where the nonterminals may be called. -/
def Rules.Keep (rules : Rules) : Prop :=
  ∀ q s, q.Admits s.ahead → (rules q).Ensures (fun _ t ↦ s.Leads t) s

namespace Rule

variable {rules : Rules} {stream : TokenStream} {excused : Prop} {room : Nat}

/-- The machine, run with `room` levels of nesting left, ends where the result holds, and so does
the reading step by step, which goes forward all the time. -/
def Meets {α : Type} (rules : Rules) (stream : TokenStream) (excused : Prop) (room : Nat)
    (Q : α → Spot → Prop) (around : Surroundings) (p : Progress) (r : Rule α)
    (end_ : α × Progress) : Prop :=
  (∃ t : Spot, t.Describes stream excused end_.2 ∧ Q end_.1 t) ∧
    ∀ (β : Type) (k : Continuation β α) (depth : Nat), depth + room = maxNesting →
      Moment.Proceeds rules ⟨r, k, around, p, depth⟩ ⟨pure end_.1, k, around, end_.2, depth⟩

/-- A loop comes to an end by itself: the rounds that the machine allows are never used up, since
every round that asks for another one has moved on. -/
private theorem exists_rounds_eq {α σ : Type} {enter : Surroundings → (q : Nonterminal) →
      Progress → q.Result × Progress} {around : Surroundings} {round : σ → Rule (Round σ)}
    {next : σ → Rule α} {I : σ → Spot → Prop} {Q : α → Spot → Prop}
    (hstream : around.stream = stream)
    (hround : ∀ state p (s : Spot), s.Describes stream excused p → I state s →
      Meets rules stream excused room (fun outcome u ↦
        match outcome with
        | .again state => s.index < u.index ∧ I state u
        | .stop state => (next state).Ensures Q u) around p (round state)
        ((round state).runWith enter around p)) :
    ∀ (limit : Nat) (state : σ) (p : Progress) (s : Spot), s.Describes stream excused p →
      I state s → stream.tokens.size < limit + s.index →
      ∃ final q, rounds (fun state p ↦ (round state).runWith enter around p) limit state p =
          (final, q) ∧
        (∃ t : Spot, t.Describes stream excused q ∧ (next final).Ensures Q t) ∧
        ∀ (β : Type) (k : Continuation β α) (depth : Nat), depth + room = maxNesting →
          Moment.Proceeds rules ⟨round state, .repeating round next k, around, p, depth⟩
            ⟨next final, k, around, q, depth⟩ := by
  intro limit
  induction limit with
  | zero =>
    intro state p s hs _ hlimit
    have hle := hs.index_le
    omega
  | succ limit ih =>
    intro state p s hs hI hlimit
    obtain ⟨⟨t, ht, hQ⟩, hsteps⟩ := hround state p s hs hI
    rw [rounds]
    generalize (round state).runWith enter around p = end_ at ht hQ hsteps ⊢
    obtain ⟨outcome, q⟩ := end_
    cases outcome with
    | stop final =>
      exact ⟨final, q, rfl, ⟨t, ht, hQ⟩, fun β k depth hdepth ↦
        (hsteps β _ depth hdepth).trans (.head (ht.still hstream rfl rfl) (.refl _))⟩
    | again state' =>
      obtain ⟨hmoved, hI'⟩ := hQ
      obtain ⟨final, q', hrounds, hend, hrest⟩ := ih state' q t ht hI' (by omega)
      have hlt : p.index < q.index := by
        rw [hs.index, ht.index]
        exact hmoved
      refine ⟨final, q', ?_, hend, fun β k depth hdepth ↦ (hsteps β _ depth hdepth).trans
        (.head (ht.still hstream rfl rfl) (hrest β k depth hdepth))⟩
      simp only [if_pos hlt, hrounds]

/-- What a rule ensures is met, if it is met with the runs of the nonterminals. -/
private theorem meets_of_enter {enter : Surroundings → (q : Nonterminal) → Progress →
      q.Result × Progress}
    (henter : ∀ around q p (s : Spot), around.stream = stream → s.Describes stream excused p →
      q.Admits s.ahead → ∀ {α : Type} (next : q.Result → Rule α),
        (∃ t : Spot, t.Describes stream excused (enter around q p).2 ∧ s.Leads t) ∧
        ∀ (β : Type) (k : Continuation β α) (depth : Nat), depth + room = maxNesting →
          Moment.Proceeds rules ⟨call q next, k, around, p, depth⟩
            ⟨next (enter around q p).1, k, around, (enter around q p).2, depth⟩)
    {α : Type} (r : Rule α) {Q : α → Spot → Prop} {around : Surroundings} {p : Progress} {s : Spot}
    (hstream : around.stream = stream) (hs : s.Describes stream excused p) (h : r.Ensures Q s) :
    Meets rules stream excused room Q around p r (r.runWith enter around p) := by
  induction r generalizing s p around with
  | pure result => exact ⟨⟨s, hs, h⟩, fun β k depth _ ↦ .refl _⟩
  | look next ih =>
    have hview := h hs.legible (p.previous around.stream)
    rw [← hs.index, ← hs.ahead] at hview
    obtain ⟨hend, hsteps⟩ := ih _ hstream hs hview
    exact ⟨hend, fun β k depth hdepth ↦ .head (hs.still hstream rfl rfl) (hsteps β k depth hdepth)⟩
  | script next ih =>
    obtain ⟨hend, hsteps⟩ := ih _ hstream hs (h around.script)
    exact ⟨hend, fun β k depth hdepth ↦ .head (hs.still hstream rfl rfl) (hsteps β k depth hdepth)⟩
  | enclosing next ih =>
    obtain ⟨hend, hsteps⟩ := ih _ hstream hs (h around.enclosing)
    exact ⟨hend, fun β k depth hdepth ↦ .head (hs.still hstream rfl rfl) (hsteps β k depth hdepth)⟩
  | advance count next ih =>
    have hpass := hs.pass h.1
    obtain ⟨hend, hsteps⟩ := ih hstream hpass h.2
    refine ⟨hend, fun β k depth hdepth ↦ .head (hs.forward hpass ?_ hstream ?_ (fun _ h ↦ by cases h))
      (hsteps β k depth hdepth)⟩
    · exact (s.precedes_pass count).index_le
    · rw [Moment.Next, Moment.step, Progress.jump_eq_advance (hs.ahead ▸ h.1.within)]
  | require feature index next ih =>
    -- What has been noted may be kept in mind or not.
    obtain ⟨t, ht, hindex, hnext⟩ : ∃ t : Spot, t.Describes stream excused
        (p.note ⟨.use feature, (around.stream.token index).span⟩) ∧ s.index ≤ t.index ∧
          next.Ensures Q t := by
      rw [hstream]
      rcases h with h | h
      · exact ⟨s, hs.congr rfl rfl rfl rfl (List.subset_cons_self _ _), Nat.le_refl _, h⟩
      · exact ⟨s.note feature index, hs.note feature index, Nat.le_refl _, h⟩
    obtain ⟨hend, hsteps⟩ := ih hstream ht hnext
    exact ⟨hend, fun β k depth hdepth ↦
      .head (hs.forward ht hindex hstream rfl (fun _ h ↦ by cases h)) (hsteps β k depth hdepth)⟩
  | report place error next ih =>
    have hreport : s.fail.Describes stream excused (p.report around.stream place error) := by
      rw [hstream]
      exact hs.report place error
    obtain ⟨hend, hsteps⟩ := ih hstream hreport h.2
    refine ⟨hend, fun β k depth hdepth ↦
      .head (hs.forward (t := s.fail) hreport (Nat.le_refl s.index) hstream rfl fun c hc ↦ ?_)
        (hsteps β k depth hdepth)⟩
    simp only [Moment.charge?] at hc
    split at hc
    · contradiction
    · rw [← Option.some.inj hc]
      exact fun heq ↦ h.1 (Cause.grammar.inj heq)
  | call q next ih =>
    obtain ⟨⟨t, ht, hst⟩, hcall⟩ := henter around q p s hstream hs h.1 next
    obtain ⟨hend, hsteps⟩ := ih _ hstream ht (h.2 _ t hst)
    exact ⟨hend, fun β k depth hdepth ↦
      (hcall β k depth hdepth).trans (hsteps β k depth hdepth)⟩
  | loop init round next ihr ihn =>
    obtain ⟨I, hinit, hround⟩ := h
    obtain ⟨final, q, hrounds, ⟨t, ht, hnext⟩, hsteps⟩ :=
      exists_rounds_eq hstream
        (fun state p s hs hI ↦ ihr state hstream hs (hround state s hI))
        around.stream.size init p s hs hinit (by rw [hstream, TokenStream.size]; omega)
    obtain ⟨hend, hrest⟩ := ihn final hstream ht hnext
    rw [runWith, hrounds]
    exact ⟨hend, fun β k depth hdepth ↦ .head (hs.still hstream rfl rfl)
      ((hsteps β k depth hdepth).trans (hrest β k depth hdepth))⟩
  | within kind body next ihb ihn =>
    have hinside : Surroundings.stream { around with enclosing := kind :: around.enclosing } =
        stream := hstream
    obtain ⟨⟨t, ht, hnext⟩, hbody⟩ := ihb hinside hs h
    obtain ⟨hend, hrest⟩ := ihn hstream ht hnext
    exact ⟨hend, fun β k depth hdepth ↦ .head (hs.still hinside rfl rfl)
      ((hbody β _ depth hdepth).trans (.head (ht.still hstream rfl rfl) (hrest β k depth hdepth)))⟩

/-- What a rule ensures is met by the machine, if the rules of the nonterminals keep the
brackets. -/
theorem Ensures.meets (hrules : rules.Keep) {α : Type} {r : Rule α} {Q : α → Spot → Prop}
    {around : Surroundings} {p : Progress} {s : Spot} (hstream : around.stream = stream)
    (hs : s.Describes stream excused p) (h : r.Ensures Q s) :
    Meets rules stream excused room Q around p r (r.runWith (rules.enter room) around p) := by
  induction room generalizing α r Q around p s with
  | zero =>
    refine meets_of_enter ?_ r hstream hs h
    intro around q p s hstream hs _ α next
    unfold Rules.enter
    split
    · next habandoned =>
      refine ⟨⟨s, hs, .refl s⟩, fun β k depth _ ↦ .head (hs.still hstream ?_ rfl) (.refl _)⟩
      simp [Moment.Next, Moment.step, habandoned]
    · next habandoned =>
      rw [hstream]
      obtain ⟨t, ht, hst⟩ := hs.abandon
      refine ⟨⟨t, ht, hst⟩, fun β k depth hdepth ↦ ?_⟩
      refine .head (n := ⟨.pure (Nonterminal.Result.unread q), .leave (.resume next k), around,
        p.abandon stream, depth + 1⟩) (hs.forward ht hst.1.index_le hstream ?_ (fun _ h ↦ by cases h))
        (.head (ht.still hstream rfl rfl) (.head (ht.still hstream rfl rfl) (.refl _)))
      rw [Moment.Next, Moment.step, if_neg habandoned, if_pos (by omega), hstream]
  | succ room ih =>
    refine meets_of_enter ?_ r hstream hs h
    intro around q p s hstream hs hadmits α next
    unfold Rules.enter
    split
    · next habandoned =>
      refine ⟨⟨s, hs, .refl s⟩, fun β k depth _ ↦ .head (hs.still hstream ?_ rfl) (.refl _)⟩
      simp [Moment.Next, Moment.step, habandoned]
    · next habandoned =>
      obtain ⟨⟨t, ht, hst⟩, hsteps⟩ := ih hstream hs (hrules q s hadmits)
      refine ⟨⟨t, ht, hst⟩, fun β k depth hdepth ↦ ?_⟩
      refine .head (n := ⟨rules q, .leave (.resume next k), around, p, depth + 1⟩)
        (hs.still hstream ?_ rfl) ((hsteps β (.leave (.resume next k)) (depth + 1) (by omega)).trans
          (.head (ht.still hstream rfl rfl) (.head (ht.still hstream rfl rfl) (.refl _))))
      rw [Moment.Next, Moment.step, if_neg habandoned, if_neg (by omega)]

end Rule

end CSharpCheck
