import CSharpCheck.Proofs.Reading.Invariants
import CSharpCheck.Proofs.Reading.Soundness
import CSharpCheck.Proofs.Rules.Declarations

/-!
# Reading a text as a script

What is read as regular code without finding a rule broken is read in the same way as a script, as
long as no namespace is declared. The two readings stay at the same token all the time, and the
second one finds nothing that the first one does not find.
-/

namespace CSharpCheck

/-- The progress in a script agrees with the one in regular code: both are at the same token, with
no error before them and no namespace ahead, and nothing has been found in the script alone. -/
structure Progress.Agrees (p q : Progress) : Prop where
  index : q.index = p.index
  ahead : q.ahead = p.ahead
  charged : p.charged = false ∧ q.charged = false
  abandonedAt : p.abandonedAt = none ∧ q.abandonedAt = none
  found : q.found ⊆ p.found
  noNamespace : ∀ t ∈ p.ahead, t.isWord .namespaceWord = false

namespace Progress.Agrees

variable {p q : Progress} {stream : TokenStream}

theorem start (h : ∀ t ∈ stream.tokens.toList, t.isWord .namespaceWord = false) :
    (Progress.start stream).Agrees (.start stream) :=
  ⟨rfl, rfl, ⟨rfl, rfl⟩, ⟨rfl, rfl⟩, List.Subset.refl _, h⟩

theorem advance (h : p.Agrees q) (count : Nat) : (p.advance count).Agrees (q.advance count) where
  index := by simp only [index_advance, h.index, h.ahead]
  ahead := by simp only [ahead_advance, h.ahead]
  charged := ⟨charged_advance h.charged.1 count, charged_advance h.charged.2 count⟩
  abandonedAt := by simp only [abandonedAt_advance, h.abandonedAt, and_self]
  found := by simpa only [found_advance] using h.found
  noNamespace := by
    rw [ahead_advance]
    exact fun t ht ↦ h.noNamespace t (List.mem_of_mem_drop ht)

theorem note (h : p.Agrees q) (x : Finding) : (p.note x).Agrees (q.note x) :=
  ⟨h.index, h.ahead, h.charged, h.abandonedAt, List.cons_subset_cons x h.found, h.noNamespace⟩

/-- What is noted in regular code only does not matter. -/
theorem note_left (h : p.Agrees q) (x : Finding) : (p.note x).Agrees q :=
  ⟨h.index, h.ahead, h.charged, h.abandonedAt, List.subset_cons_of_subset x h.found,
    h.noNamespace⟩

theorem previous (h : p.Agrees q) (stream : TokenStream) :
    q.previous stream = p.previous stream := by
  rw [Progress.previous, Progress.previous, h.index]

/-- An error is found where none has been found before. -/
theorem faulty_report (h : p.Agrees q) (stream : TokenStream) (place : ErrorPlace)
    (e : GrammarError) : (p.report stream place e).Faulty := by
  rw [report, h.charged.1, h.abandonedAt.1]
  exact ⟨_, List.mem_cons_self, e, rfl⟩

end Progress.Agrees

/-- The ends of two rounds with related states. -/
inductive Round.Related {σ τ : Type} (R : σ → τ → Prop) : Round σ → Round τ → Prop where
  | again {s : σ} {t : τ} : R s t → Related R (.again s) (.again t)
  | stop {s : σ} {t : τ} : R s t → Related R (.stop s) (.stop t)

namespace Rule

variable {stream : TokenStream} {room : Nat} {α β γ δ σ τ : Type}

/-- As long as the first rule finds no rule broken in regular code, the second one does the same in
a script, with a related result. -/
def Agrees (stream : TokenStream) (room : Nat) (R : α → β → Prop) (r : Rule α) (r' : Rule β) :
    Prop :=
  ∀ ⦃kinds : List TypeKind⦄ ⦃p q : Progress⦄, p.Agrees q →
    let regular := r.runWith (grammarRules.enter room) ⟨stream, false, kinds⟩ p
    let script := r'.runWith (grammarRules.enter room) ⟨stream, true, kinds⟩ q
    ¬regular.2.Faulty → R regular.1 script.1 ∧ regular.2.Agrees script.2

namespace Agrees

variable {R : α → β → Prop} {S : γ → δ → Prop} {r : Rule α} {r' : Rule β}

theorem pure {a : α} {b : β} (h : R a b) :
    Agrees stream room R (Pure.pure a) (Pure.pure b) := fun _ _ _ hp _ ↦ ⟨h, hp⟩

theorem bind {f : α → Rule γ} {f' : β → Rule δ} (h : Agrees stream room R r r')
    (hf : ∀ a b, R a b → Agrees stream room S (f a) (f' b)) :
    Agrees stream room S (r >>= f) (r' >>= f') := by
  intro kinds p q hp
  simp only [runWith_bind]
  intro hclean
  obtain ⟨hresult, hagrees⟩ := h hp fun hfaulty ↦ hclean (faulty_runWith _ hfaulty)
  exact hf _ _ hresult hagrees hclean

theorem look {next : View → Rule α} {next' : View → Rule β}
    (h : ∀ v, (∀ t ∈ v.ahead, t.isWord .namespaceWord = false) →
      Agrees stream room R (next v) (next' v)) :
    Agrees stream room R (look next) (look next') := by
  intro kinds p q hp
  simp only [runWith, hp.index, hp.ahead, hp.previous]
  exact h _ hp.noNamespace hp

theorem ite {c : Prop} [Decidable c] {s : Rule α} {s' : Rule β}
    (hthen : c → Agrees stream room R r r') (helse : ¬c → Agrees stream room R s s') :
    Agrees stream room R (if c then r else s) (if c then r' else s') := by
  split
  · next hc => exact hthen hc
  · next hc => exact helse hc

/-- The answers to the question whether the text is a script are known. -/
theorem script {next : Bool → Rule α} {next' : Bool → Rule β}
    (h : Agrees stream room R (next false) (next' true)) :
    Agrees stream room R (script next) (script next') := fun _ _ _ hp ↦ h hp

/-- Regular code may use a feature that a script does not. -/
theorem requireHere_left (h : Agrees stream room R r r') (f : Feature) :
    Agrees stream room R (requireHere f >>= fun _ ↦ r) r' :=
  fun _ _ _ hp ↦ h (hp.note_left _)

/-- Whatever follows an error in regular code does not matter. -/
theorem errorHere_left (e : GrammarError) : Agrees stream room R (errorHere e >>= fun _ ↦ r) r' :=
  fun _ _ _ hp hclean ↦ absurd (faulty_runWith r (hp.faulty_report stream .here e)) hclean

theorem rounds {R : σ → τ → Prop} {round : σ → Rule (Round σ)} {round' : τ → Rule (Round τ)}
    (h : ∀ s t, R s t → Agrees stream room (Round.Related R) (round s) (round' t))
    (kinds : List TypeKind) (limit : Nat) {s : σ} {t : τ} (hst : R s t) {p q : Progress}
    (hp : p.Agrees q) :
    let regular := Rule.rounds
      (fun s p ↦ (round s).runWith (grammarRules.enter room) ⟨stream, false, kinds⟩ p) limit s p
    let script := Rule.rounds
      (fun t q ↦ (round' t).runWith (grammarRules.enter room) ⟨stream, true, kinds⟩ q) limit t q
    ¬regular.2.Faulty → R regular.1 script.1 ∧ regular.2.Agrees script.2 := by
  induction limit generalizing s t p q with
  | zero => exact fun _ ↦ ⟨hst, hp⟩
  | succ limit ih =>
    have hround := @h s t hst kinds p q hp
    have hfaulty (s : σ) {p : Progress} (hp : p.Faulty) :
        (Rule.rounds (fun s p ↦
          (round s).runWith (grammarRules.enter room) ⟨stream, false, kinds⟩ p)
            limit s p).2.Faulty :=
      rounds_invariant (fun s _ ↦ faulty_runWith (round s)) limit hp
    simp only [Rule.rounds] at hround ⊢
    generalize (round s).runWith _ _ p = regular at hround ⊢
    generalize (round' t).runWith _ _ q = script at hround ⊢
    obtain ⟨outcome, p'⟩ := regular
    obtain ⟨outcome', q'⟩ := script
    intro hclean
    have hclean' : ¬p'.Faulty := by
      intro hp'
      refine hclean ?_
      cases outcome with
      | stop s => exact hp'
      | again s =>
        simp only
        split
        · exact hfaulty s hp'
        · exact hp'
    obtain ⟨hrelated, hp'⟩ := hround hclean'
    cases hrelated with
    | stop hst => exact ⟨hst, hp'⟩
    | again hst =>
      have hindex : q'.index = p'.index := hp'.index
      simp only [hp.index, hindex] at hclean ⊢
      split
      · next hmoved =>
        rw [if_pos hmoved] at hclean
        exact ih hst hp' hclean
      · exact ⟨hst, hp'⟩

theorem loop {R : σ → τ → Prop} {S : α → β → Prop} {init : σ} {init' : τ}
    {round : σ → Rule (Round σ)} {round' : τ → Rule (Round τ)} {next : σ → Rule α}
    {next' : τ → Rule β} (hinit : R init init')
    (hround : ∀ s t, R s t → Agrees stream room (Round.Related R) (round s) (round' t))
    (hnext : ∀ s t, R s t → Agrees stream room S (next s) (next' t)) :
    Agrees stream room S (loop init round next) (loop init' round' next') := by
  intro kinds p q hp
  simp only [runWith]
  intro hclean
  obtain ⟨hrelated, hagrees⟩ := rounds hround kinds stream.size hinit hp
    fun hfaulty ↦ hclean (faulty_runWith _ hfaulty)
  exact hnext _ _ hrelated hagrees hclean

end Agrees

/-- Every nonterminal but namespaces is read in the same way. -/
def CallsAgree (stream : TokenStream) (room : Nat) : Prop :=
  ∀ q, q ≠ .namespaceDeclaration →
    Agrees stream room (· = ·) (call q Rule.pure) (call q Rule.pure)

/-- A rule without questions for the kind of the text and without namespaces is read in the same
way. -/
theorem agrees_without (hcalls : CallsAgree stream room) (r : Rule α) :
    Agrees stream room (· = ·) (r.without .script) (r.without .script) := by
  induction r with
  | pure result => exact .pure rfl
  | look next ih => exact .look fun v _ ↦ ih v
  | script next ih => exact ih false
  | enclosing next ih => exact fun kinds _ _ hp ↦ ih kinds hp
  | advance count next ih => exact fun _ _ _ hp ↦ ih (hp.advance count)
  | require f index next ih => exact fun _ _ _ hp ↦ ih (hp.note _)
  | report place e next ih =>
    intro kinds p q hp regular script hclean
    exact absurd (faulty_runWith _ (hp.faulty_report stream place e)) hclean
  | call q next ih =>
    by_cases hq : q = .namespaceDeclaration
    · subst hq
      exact ih false
    · rw [without_call hq]
      refine (hcalls q hq).bind fun a b hab ↦ ?_
      obtain rfl := hab
      exact ih a
  | loop init round next ihround ih =>
    refine .loop (R := (· = ·)) rfl (fun s t hst ↦ ?_) fun s t hst ↦ ?_
    · obtain rfl := hst
      intro kinds p q hp regular script hclean
      obtain ⟨hresult, hagrees⟩ := ihround s hp hclean
      refine ⟨?_, hagrees⟩
      rw [← hresult]
      generalize Prod.fst _ = outcome
      cases outcome <;> constructor <;> rfl
    · obtain rfl := hst
      exact ih s
  | within kind body next ihbody ih =>
    intro kinds p q hp regular script hclean
    obtain ⟨-, hagrees⟩ := @ihbody (kind :: kinds) p q hp
      fun hfaulty ↦ hclean (faulty_runWith (next.without .script) hfaulty)
    exact ih hagrees hclean

theorem Agrees.of_without (hcalls : CallsAgree stream room) {r : Rule α}
    (h : r.without .script = r) : Agrees stream room (· = ·) r r := by
  rw [← h]
  exact agrees_without hcalls r

end Rule

end CSharpCheck
