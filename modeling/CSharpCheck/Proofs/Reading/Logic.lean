import CSharpCheck.Grammar.Machine
import CSharpCheck.Proofs.Nesting.Conventions
import CSharpCheck.Proofs.Nesting.Groups

/-!
# A logic for rules

What a rule ensures is computed from the rule itself, before any machine runs it. A place in the
text is described by the tokens ahead, by the brackets that are open there and by the features that
have been noted. As long as no error has been found, a rule may only pass over tokens whose brackets
match and whose features have been noted, and every round of a loop that asks for another one has to
move on. A proof may leave the brackets or the features out of account.
-/

namespace CSharpCheck

/-- What is known of the features that tokens carry. -/
structure Watch where
  /-- The features that need not be noted. -/
  allowed : Feature → Prop
  /-- The features that have been noted and the places at which they have. -/
  noted : List (Feature × Nat)

namespace Watch

/-- The token carries no feature that needs to be noted. -/
def Allows (w : Watch) (t : Token) : Prop :=
  t.kind.bearsFeatures = true → ∀ f ∈ t.features, w.allowed f

/-- The features of the token at the place have been noted where they need to be. -/
def Admits (w : Watch) (place : Nat) (t : Token) : Prop :=
  t.kind.bearsFeatures = true → ∀ f ∈ t.features, w.allowed f ∨ (f, place) ∈ w.noted

theorem allows_of_bearsFeatures {w : Watch} {t : Token} (h : t.kind.bearsFeatures = false) :
    w.Allows t := fun ht ↦ by simp [h] at ht

theorem allows_of_is {w : Watch} {t : Token} {s : Symbol} (h : t.is s = true) : w.Allows t :=
  allows_of_bearsFeatures (by rw [Token.kind_of_is h]; rfl)

theorem Allows.admits {w : Watch} {t : Token} (h : w.Allows t) (place : Nat) : w.Admits place t :=
  fun ht f hf ↦ .inl (h ht f hf)

theorem regular_allows (w : Watch) : Regular fun ts ↦ ∀ t ∈ ts, w.Allows t where
  nil := List.forall_mem_nil _
  singleton _ ht := List.forall_mem_singleton.2 (allows_of_bearsFeatures ht.2)
  append _ _ ht hu := List.forall_mem_append.2 ⟨ht, hu⟩
  enclose _ _ _ _ _ _ ho hc _ _ h := List.forall_mem_cons.2 ⟨allows_of_is ho,
    List.forall_mem_append.2 ⟨h, List.forall_mem_singleton.2 (allows_of_is hc)⟩⟩

end Watch

/-- A place in a text as a proof about rules sees it. -/
structure Spot where
  index : Nat
  ahead : Ahead
  /-- The brackets that are open here, unless an error has been found or brackets are left out of
  account. -/
  brackets : Option Brackets
  /-- What is known of features, unless an error has been found or features are left out of
  account. -/
  watch : Option Watch

namespace Spot

/-- Unless an error has been found, exactly the given brackets are open. -/
def Holds (s : Spot) (open_ : Brackets) : Prop := ∀ b, s.brackets = some b → b = open_

/-- Neither brackets nor features are taken into account, as is the case after an error. -/
def Failed (s : Spot) : Prop := s.brackets = none ∧ s.watch = none

/-- Unless an error has been found, groups and calling conventions are well formed ahead, and the
features that conventions carry need not be noted. -/
structure Legible (s : Spot) : Prop where
  brackets : ∀ b, s.brackets = some b → CompletesGroups b s.ahead ∧ ConventionsBracketed s.ahead
  watch : ∀ w, s.watch = some w → Conventions (fun ts ↦ ∀ t ∈ ts, w.Allows t) s.ahead

/-- The place after passing over tokens, as far as there are any. -/
def pass (s : Spot) (count : Nat) : Spot :=
  { index := s.index + min count s.ahead.length
    ahead := s.ahead.drop count
    brackets := s.brackets.bind (·.after (s.ahead.take count))
    watch := s.watch }

/-- Unless an error has been found, the features of the tokens that come next have been noted where
they need to be. -/
def Admits (s : Spot) (count : Nat) : Prop :=
  ∀ w, s.watch = some w → ∀ i < count, ∀ t, s.ahead[i]? = some t → w.Admits (s.index + i) t

/-- Tokens may be passed over: at most one, or no more than there are, and unless an error has been
found their brackets match and their features have been noted. -/
structure Passable (s : Spot) (count : Nat) : Prop where
  within : count ≤ 1 ∨ count ≤ s.ahead.length
  matching : ∀ b, s.brackets = some b → (b.after (s.ahead.take count)).isSome
  admitted : s.Admits count

theorem admits_of_allows {s : Spot} {count : Nat}
    (h : ∀ w, s.watch = some w → ∀ t ∈ s.ahead.take count, w.Allows t) : s.Admits count :=
  fun w hw _ hi t ht ↦
    (h w hw t (List.mem_of_getElem? ((List.getElem?_take_of_lt hi).trans ht))).admits _

/-- The place after a feature has been noted. -/
def note (s : Spot) (f : Feature) (place : Nat) : Spot :=
  { s with watch := s.watch.map fun w ↦ { w with noted := (f, place) :: w.noted } }

/-- The place after an error. -/
def fail (s : Spot) : Spot := { s with brackets := none, watch := none }

/-- The second place is not before the first one, errors are not forgotten on the way, and the same
features need not be noted. -/
structure Precedes (s t : Spot) : Prop where
  moved : ∃ n ≤ s.ahead.length, t.index = s.index + n ∧ t.ahead = s.ahead.drop n
  brackets : s.brackets = none → t.brackets = none
  watch : ∀ w, t.watch = some w → ∃ v, s.watch = some v ∧ v.allowed = w.allowed

/-- The second place can be reached from the first one over well-bracketed tokens, unless an error
is found on the way. -/
def Leads (s t : Spot) : Prop := s.Precedes t ∧ ∀ open_, s.Holds open_ → t.Holds open_

theorem Precedes.watch_eq_none {s t : Spot} (h : s.Precedes t) (hs : s.watch = none) :
    t.watch = none := by
  rw [Option.eq_none_iff_forall_ne_some]
  intro w hw
  obtain ⟨v, hv, -⟩ := h.watch w hw
  rw [hs] at hv
  contradiction

theorem Precedes.failed {s t : Spot} (h : s.Precedes t) (hs : s.Failed) : t.Failed :=
  ⟨h.brackets hs.1, h.watch_eq_none hs.2⟩

theorem Precedes.refl (s : Spot) : s.Precedes s :=
  ⟨⟨0, by omega, rfl, rfl⟩, id, fun w hw ↦ ⟨w, hw, rfl⟩⟩

theorem Precedes.trans {s t u : Spot} (hst : s.Precedes t) (htu : t.Precedes u) :
    s.Precedes u := by
  obtain ⟨n, hn, hindex, hahead⟩ := hst.moved
  obtain ⟨m, hm, hindex', hahead'⟩ := htu.moved
  rw [hahead, List.length_drop] at hm
  refine ⟨⟨n + m, by omega, by omega, ?_⟩, htu.brackets ∘ hst.brackets, fun w hw ↦ ?_⟩
  · rw [hahead', hahead, List.drop_drop]
  · obtain ⟨v, hv, hvw⟩ := htu.watch w hw
    obtain ⟨u, hu, huv⟩ := hst.watch v hv
    exact ⟨u, hu, huv.trans hvw⟩

theorem Precedes.index_le {s t : Spot} (h : s.Precedes t) : s.index ≤ t.index := by
  obtain ⟨n, -, hindex, -⟩ := h.moved
  omega

theorem precedes_pass (s : Spot) (count : Nat) : s.Precedes (s.pass count) := by
  refine ⟨⟨min count s.ahead.length, Nat.min_le_right _ _, rfl, ?_⟩, fun h ↦ by simp [pass, h],
    fun w hw ↦ ⟨w, hw, rfl⟩⟩
  rw [pass]
  rcases Nat.le_total count s.ahead.length with h | h
  · rw [Nat.min_eq_left h]
  · rw [Nat.min_eq_right h, List.drop_eq_nil_of_le h, List.drop_length]

theorem precedes_note (s : Spot) (f : Feature) (place : Nat) : s.Precedes (s.note f place) :=
  ⟨⟨0, by omega, rfl, rfl⟩, id, fun w hw ↦ by
    obtain ⟨v, hv, rfl⟩ := Option.map_eq_some_iff.1 hw
    exact ⟨v, hv, rfl⟩⟩

theorem precedes_fail (s : Spot) : s.Precedes s.fail :=
  ⟨⟨0, by omega, rfl, rfl⟩, fun _ ↦ rfl, fun w hw ↦ by simp [fail] at hw⟩

theorem failed_fail (s : Spot) : s.fail.Failed := ⟨rfl, rfl⟩

/-- Where nothing has been passed over the same tokens are ahead. -/
theorem Precedes.ahead_eq {s t : Spot} (h : s.Precedes t) (hindex : t.index = s.index) :
    t.ahead = s.ahead := by
  obtain ⟨n, -, hn, hahead⟩ := h.moved
  rw [hahead, show n = 0 by omega, List.drop_zero]

theorem Leads.refl (s : Spot) : s.Leads s := ⟨.refl s, fun _ h ↦ h⟩

theorem Failed.holds {s : Spot} (h : s.Failed) (open_ : Brackets) : s.Holds open_ :=
  fun _ hb ↦ by simp [h.1] at hb

theorem holds_fail (s : Spot) (open_ : Brackets) : s.fail.Holds open_ := s.failed_fail.holds open_

end Spot

/-- What has to be seen before a nonterminal is called. -/
def Nonterminal.Admits : Nonterminal → Ahead → Prop
  | namespaceDeclaration, ts => ts.isWord .namespaceWord = true
  | typeDeclaration _, ts => ts.head?.all (fun t ↦ decide t.IsPlain) = true
  | _, _ => True

namespace Rule

/-- The rule, run at a place, passes over matching brackets and noted features only, comes to an
end, and ensures the given result there. A loop is described by an invariant and has to move on
before it asks for another round; of a nonterminal only what all nonterminals have in common is
used. That a feature has been noted may be forgotten at once. No error that is reported says that
the text is too complex: that is for the machine to say. -/
def Ensures : {α : Type} → Rule α → (α → Spot → Prop) → Spot → Prop
  | _, pure result, Q, s => Q result s
  | _, look next, Q, s =>
    s.Legible → ∀ previous, (next ⟨s.index, previous, s.ahead⟩).Ensures Q s
  | _, script next, Q, s => ∀ isScript, (next isScript).Ensures Q s
  | _, enclosing next, Q, s => ∀ kinds, (next kinds).Ensures Q s
  | _, advance count next, Q, s => s.Passable count ∧ next.Ensures Q (s.pass count)
  | _, require f place next, Q, s => next.Ensures Q s ∨ next.Ensures Q (s.note f place)
  | _, report _ error next, Q, s => error ≠ .tooComplex ∧ next.Ensures Q s.fail
  | _, call q next, Q, s =>
    q.Admits s.ahead ∧ ∀ result t, s.Leads t → (next result).Ensures Q t
  | _, @loop _ σ init round next, Q, s =>
    ∃ I : σ → Spot → Prop, I init s ∧ ∀ state t, I state t →
      (round state).Ensures (fun outcome u ↦
        match outcome with
        | .again state => t.index < u.index ∧ I state u
        | .stop state => (next state).Ensures Q u) t
  | _, within _ body next, Q, s => body.Ensures (fun _ t ↦ next.Ensures Q t) s

/-- A weaker result is ensured, too. -/
theorem Ensures.mono {α : Type} {r : Rule α} {Q Q' : α → Spot → Prop} {s : Spot}
    (h : r.Ensures Q s) (hQ : ∀ a t, Q a t → Q' a t) : r.Ensures Q' s := by
  induction r generalizing s with
  | pure result => exact hQ _ _ h
  | look next ih => exact fun hs previous ↦ ih _ (h hs previous) hQ
  | script next ih => exact fun b ↦ ih b (h b) hQ
  | enclosing next ih => exact fun kinds ↦ ih kinds (h kinds) hQ
  | advance count next ih => exact ⟨h.1, ih h.2 hQ⟩
  | require feature index next ih => exact h.imp (ih · hQ) (ih · hQ)
  | report place error next ih => exact ⟨h.1, ih h.2 hQ⟩
  | call q next ih => exact ⟨h.1, fun result t ht ↦ ih result (h.2 result t ht) hQ⟩
  | loop init round next ihr ihn =>
    obtain ⟨I, hinit, hround⟩ := h
    refine ⟨I, hinit, fun state t ht ↦ ihr state (hround state t ht) fun outcome u hu ↦ ?_⟩
    cases outcome with
    | again state => exact hu
    | stop state => exact ihn state hu hQ
  | within kind body next ihb ihn => exact ihb h fun _ t ht ↦ ihn ht hQ

/-- What a rule ensures it ensures further on. -/
theorem Ensures.later {α : Type} {r : Rule α} {Q : α → Spot → Prop} {s : Spot}
    (h : r.Ensures Q s) : r.Ensures (fun a t ↦ s.Precedes t ∧ Q a t) s := by
  have carry {β : Type} {r : Rule β} {Q : β → Spot → Prop} {s t : Spot} (hst : s.Precedes t)
      (h : r.Ensures (fun a u ↦ t.Precedes u ∧ Q a u) t) :
      r.Ensures (fun a u ↦ s.Precedes u ∧ Q a u) t :=
    h.mono fun _ _ hu ↦ ⟨hst.trans hu.1, hu.2⟩
  induction r generalizing s with
  | pure result => exact ⟨.refl s, h⟩
  | look next ih => exact fun hs previous ↦ ih _ (h hs previous)
  | script next ih => exact fun b ↦ ih b (h b)
  | enclosing next ih => exact fun kinds ↦ ih kinds (h kinds)
  | advance count next ih => exact ⟨h.1, carry (s.precedes_pass count) (ih h.2)⟩
  | require feature index next ih =>
    exact h.imp ih fun h ↦ carry (s.precedes_note feature index) (ih h)
  | report place error next ih =>
    exact ⟨h.1, carry (t := s.fail) s.precedes_fail (ih h.2)⟩
  | call q next ih =>
    exact ⟨h.1, fun result t ht ↦ carry ht.1 (ih result (h.2 result t ht))⟩
  | loop init round next ihr ihn =>
    obtain ⟨I, hinit, hround⟩ := h
    refine ⟨fun state t ↦ s.Precedes t ∧ I state t, ⟨.refl s, hinit⟩, ?_⟩
    rintro state t ⟨hst, ht⟩
    refine (ihr state (hround state t ht)).mono ?_
    rintro (state | state) u ⟨htu, hu⟩
    · exact ⟨hu.1, hst.trans htu, hu.2⟩
    · exact carry (hst.trans htu) (ihn state hu)
  | within kind body next ihb ihn =>
    exact (ihb h).mono fun _ t ht ↦ carry ht.1 (ihn ht.2)

/-- One rule after another ensures what the second one ensures where the first one has ended. -/
theorem ensures_bind {α β : Type} {r : Rule α} {f : α → Rule β} {Q : β → Spot → Prop} {s : Spot} :
    (r >>= f).Ensures Q s ↔ r.Ensures (fun a t ↦ (f a).Ensures Q t) s := by
  change (r.bind f).Ensures Q s ↔ _
  induction r generalizing s with
  | pure result => exact Iff.rfl
  | look next ih => exact forall_congr' fun _ ↦ forall_congr' fun previous ↦ ih _
  | script next ih => exact forall_congr' fun b ↦ ih b
  | enclosing next ih => exact forall_congr' fun kinds ↦ ih kinds
  | advance count next ih => exact and_congr Iff.rfl ih
  | require feature index next ih => exact or_congr ih ih
  | report place error next ih => exact and_congr Iff.rfl ih
  | call q next ih =>
    exact and_congr Iff.rfl (forall_congr' fun result ↦ forall_congr' fun t ↦
      imp_congr_right fun _ ↦ ih result)
  | loop init round next ihr ihn =>
    refine exists_congr fun I ↦ and_congr Iff.rfl (forall_congr' fun state ↦
      forall_congr' fun t ↦ imp_congr_right fun _ ↦ ?_)
    constructor
    all_goals
      intro h
      refine h.mono ?_
      rintro (state | state) u hu
      · exact hu
      · first | exact (ihn state).1 hu | exact (ihn state).2 hu
  | within kind body next ihb ihn =>
    constructor
    · exact fun h ↦ Ensures.mono (r := body) h fun _ t ht ↦ ihn.1 ht
    · exact fun h ↦ Ensures.mono (r := body) h fun _ t ht ↦ ihn.2 ht

end Rule

end CSharpCheck
