import CSharpCheck.Proofs.Nesting.Brackets

/-!
# Groups

An interpolated string is a group of tokens. Between its start and its end there are texts and
holes only, no two texts side by side, and a hole holds ordinary tokens and groups, at last
perhaps a format. The contexts that are open in a text say which class of token may come next.
-/

namespace CSharpCheck

/-- What a place inside an interpolated string is in. -/
inductive Context where
  /-- In the string itself, perhaps after a text. -/
  | string (afterText : Bool)
  /-- In a hole, perhaps after its format. -/
  | hole (afterFormat : Bool)
  deriving DecidableEq, Repr

namespace Context

/-- The bracket that opens the context. -/
def bracket : Context → Bracket
  | string _ => .string
  | hole _ => .hole

/-- The open contexts, innermost first, after a token of the class, if it may come there. -/
def step : List Context → Kind → Option (List Context)
  | string false :: outer, .interpolatedText => some (string true :: outer)
  | string _ :: outer, .holeStart => some (hole false :: string false :: outer)
  | string _ :: outer, .interpolatedEnd => some outer
  | string _ :: _, _ => none
  | hole false :: outer, .holeFormat => some (hole true :: outer)
  | hole _ :: outer, .holeEnd => some outer
  | hole true :: _, _ => none
  | _, .interpolatedText | _, .holeStart | _, .interpolatedEnd | _, .holeFormat | _, .holeEnd =>
    none
  | contexts, .interpolatedStart => some (string false :: contexts)
  | contexts, _ => some contexts

/-- The open contexts after tokens of the classes. -/
def after : List Context → List Kind → Option (List Context)
  | contexts, [] => some contexts
  | contexts, k :: ks => (step contexts k).bind (after · ks)

@[simp] theorem after_nil (contexts : List Context) : after contexts [] = some contexts := rfl

theorem after_cons (contexts : List Context) (k : Kind) (ks : List Kind) :
    after contexts (k :: ks) = (step contexts k).bind (after · ks) := rfl

theorem after_append (contexts : List Context) (ks ls : List Kind) :
    after contexts (ks ++ ls) = (after contexts ks).bind (after · ls) := by
  induction ks generalizing contexts with
  | nil => rfl
  | cons k ks ih =>
    rw [List.cons_append, after_cons, after_cons]
    cases step contexts k with
    | none => rfl
    | some next => simp only [Option.bind_some, ih]

end Context

/-- Whether tokens of the class stand at the borders or in the texts of groups only. -/
def Kind.isGroup : Kind → Bool
  | .interpolatedStart | .interpolatedText | .interpolatedEnd | .holeStart | .holeFormat
  | .holeEnd => true
  | _ => false

theorem Context.step_ordinary {contexts next : List Context} {k : Kind} (hk : k.isGroup = false)
    (h : Context.step contexts k = some next) : next = contexts := by
  unfold Context.step at h
  split at h <;> first | contradiction | simp_all [Kind.isGroup]

/-- Bad tokens do not count. -/
theorem Context.after_filter_bad {contexts final : List Context} {ks : List Kind}
    (h : Context.after contexts ks = some final) :
    Context.after contexts (ks.filter (· != .bad)) = some final := by
  induction ks generalizing contexts with
  | nil => exact h
  | cons k ks ih =>
    rw [after_cons] at h
    obtain ⟨next, hnext, hrest⟩ := Option.bind_eq_some_iff.1 h
    by_cases hk : k = .bad
    · subst hk
      rw [step_ordinary rfl hnext] at hrest
      exact ih hrest
    · rw [List.filter_cons_of_pos (by simpa using hk), after_cons, hnext]
      exact ih hrest

/-- Whether the bracket belongs to an interpolated string. -/
def Bracket.isGroup : Bracket → Bool
  | .string | .hole => true
  | .paren | .bracket | .brace => false

/-- The tokens complete all groups that are open where the brackets are. -/
def CompletesGroups (open_ : Brackets) (ts : List Token) : Prop :=
  ∃ contexts : List Context, contexts.map Context.bracket = open_.filter Bracket.isGroup ∧
    Context.after contexts (ts.map (·.kind)) = some []

namespace CompletesGroups

/-- In an interpolated string comes a text, a hole or the end of the string. -/
theorem head_of_string {open_ : Brackets} {ts : List Token}
    (h : CompletesGroups (.string :: open_) ts) :
    ∃ t rest, ts = t :: rest ∧
      (t.kind = .interpolatedText ∨ t.kind = .holeStart ∨ t.kind = .interpolatedEnd) := by
  obtain ⟨contexts, hmap, hafter⟩ := h
  cases contexts with
  | nil => simp [Bracket.isGroup] at hmap
  | cons c outer =>
    cases c with
    | hole f =>
      rw [List.map_cons, List.filter_cons_of_pos rfl] at hmap
      simp [Context.bracket] at hmap
    | string b =>
      cases ts with
      | nil => simp at hafter
      | cons t rest =>
        refine ⟨t, rest, rfl, ?_⟩
        rw [List.map_cons, Context.after_cons] at hafter
        cases hk : t.kind <;> cases b <;> simp [hk, Context.step] at hafter ⊢

end CompletesGroups

private theorem isGroup_of_side {s : Symbol} {b : Bracket}
    (h : s.side = .opening b ∨ s.side = .closing b) : b.isGroup = false := by
  cases s <;> simp [Symbol.side] at h <;> subst h <;> rfl

/-- An ordinary bracket changes no group. -/
private theorem filter_isGroup_step {open_ open' : Brackets} {s : Symbol}
    (h : open_.step s.side = some open') :
    open'.filter Bracket.isGroup = open_.filter Bracket.isGroup := by
  cases hs : s.side with
  | neither =>
    rw [hs, Brackets.step_neither, Option.some.injEq] at h
    rw [h]
  | opening b =>
    rw [hs, Brackets.step_opening, Option.some.injEq] at h
    rw [← h, List.filter_cons_of_neg (by simp [isGroup_of_side (.inl hs)])]
  | closing b =>
    rw [hs, Brackets.step_closing] at h
    rw [h, List.filter_cons_of_neg (by simp [isGroup_of_side (.inr hs)])]

/-- The contexts follow the brackets. -/
private theorem map_bracket_step {contexts next : List Context} {k : Kind} {open_ open' : Brackets}
    (hmap : contexts.map Context.bracket = open_.filter Bracket.isGroup)
    (hc : Context.step contexts k = some next) (hb : open_.step k.side = some open') :
    next.map Context.bracket = open'.filter Bracket.isGroup := by
  cases hk : k.isGroup with
  | false =>
    rw [Context.step_ordinary hk hc, hmap]
    cases k with
    | symbol s => exact (filter_isGroup_step hb).symm
    | _ => first | contradiction | simp_all [Kind.side]
  | true =>
    unfold Context.step at hc
    split at hc
    all_goals simp only [Option.some.injEq, reduceCtorEq] at hc
    all_goals subst hc
    all_goals simp [Kind.side, Kind.isGroup] at hb hk
    all_goals subst hb
    all_goals simpa [Context.bracket, Bracket.isGroup, List.filter_cons] using hmap

namespace CompletesGroups

/-- What is left of the tokens completes the groups that are open then. -/
theorem drop {open_ open' : Brackets} {ts us : List Token}
    (h : CompletesGroups open_ (ts ++ us)) (hb : open_.after ts = some open') :
    CompletesGroups open' us := by
  induction ts generalizing open_ with
  | nil => cases hb; exact h
  | cons t ts ih =>
    obtain ⟨contexts, hmap, hafter⟩ := h
    rw [List.cons_append, List.map_cons, Context.after_cons] at hafter
    rw [Brackets.after_cons] at hb
    obtain ⟨next, hnext, hafter⟩ := Option.bind_eq_some_iff.1 hafter
    obtain ⟨mid, hmid, hb⟩ := Option.bind_eq_some_iff.1 hb
    exact ih ⟨next, map_bracket_step hmap hnext hmid, hafter⟩ hb

end CompletesGroups

end CSharpCheck
