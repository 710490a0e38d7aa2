import CSharpCheck.Proofs.Scanning.Features
import CSharpCheck.Proofs.Successes

/-!
# Features of tokens in texts without errors

Tokens carry the features that their spelling needs; the grammar notes them where it reads the
tokens. In a text in which the validation finds no error the session has the features of all
tokens, but for the calling conventions of function pointer types: what stands between the square
brackets of a convention is passed over unread, literals among it.
-/

namespace CSharpCheck

/-- The session has all the features that the tokens carry. -/
def Gate.Admits (g : Gate) (ts : List Token) : Prop :=
  ∀ t ∈ ts, ∀ f ∈ t.features, g.allows f = true

namespace Gate.Admits

variable {g : Gate} {ts us : List Token}

theorem append_iff : g.Admits (ts ++ us) ↔ g.Admits ts ∧ g.Admits us := List.forall_mem_append

theorem subset (h : g.Admits ts) (hsub : us ⊆ ts) : g.Admits us := fun t ht ↦ h t (hsub ht)

/-- Bad tokens carry no features. -/
theorem filter_bad_iff (hts : ∀ t ∈ ts, t.Fitting) :
    g.Admits (ts.filter (·.kind != .bad)) ↔ g.Admits ts := by
  refine ⟨fun h t ht f hf ↦ ?_, fun h ↦ h.subset List.filter_sublist.subset⟩
  by_cases hbad : t.kind = .bad
  · rw [hts t ht (by rw [hbad]; rfl)] at hf
    contradiction
  · exact h t (List.mem_filter.2 ⟨ht, by simpa using hbad⟩) f hf

theorem singleton_eof {eof : Token} (heof : eof.kind = .endOfFile) (hfitting : eof.Fitting) :
    g.Admits [eof] := by
  rw [Admits, List.forall_mem_singleton, hfitting (by rw [heof]; rfl)]
  exact List.forall_mem_nil _

/-- What the conventions of a text carry the text carries. -/
theorem conventions (h : g.Admits ts) : Conventions g.Admits ts := fun _ hrest _ _ _ _ ↦
  h.subset fun _ ht ↦ hrest.subset (List.mem_of_mem_drop (List.mem_of_mem_take ht))

end Gate.Admits

/-- The beginning of a stream where features are taken into account, and brackets are not. -/
private def Spot.watching (stream : TokenStream) (w : Watch) : Spot :=
  ⟨0, stream.tokens.toList, none, some w⟩

private theorem Spot.describes_watching {stream : TokenStream} {allowed : Feature → Prop}
    (h : Conventions (fun ts ↦ ∀ t ∈ ts, Watch.Allows ⟨allowed, []⟩ t) stream.tokens.toList) :
    (watching stream ⟨allowed, []⟩).Describes stream False (.start stream) := by
  refine ⟨rfl, rfl, Nat.zero_le _, rfl, fun b hb ↦ ?_, fun w hw ↦ ?_, fun hfailed ↦ ?_⟩
  · contradiction
  · cases hw
    exact ⟨rfl, rfl, fun i hi ↦ absurd hi (Nat.not_lt_zero i), List.forall_mem_nil _, h⟩
  · exact absurd hfailed.2 (Option.some_ne_none _)

/-- In a stream whose reading finds no rule broken, all features of literals and interpolated
strings are noted that need to be, if those of conventions need not be. -/
theorem found_of_not_faulty {stream : TokenStream} {script : Bool} {allowed : Feature → Prop}
    (hconventions : Conventions (fun ts ↦ ∀ t ∈ ts, Watch.Allows ⟨allowed, []⟩ t)
      stream.tokens.toList)
    (hfaulty : ¬(readUnit stream script).Faulty) {t : Token} (ht : t ∈ stream.tokens.toList)
    (hbears : t.kind.bearsFeatures = true) {f : Feature} (hf : f ∈ t.features) :
    allowed f ∨ ⟨.use f, t.span⟩ ∈ (readUnit stream script).found := by
  have hholds : (Spot.watching stream ⟨allowed, []⟩).Holds [] := fun b hb ↦ by contradiction
  obtain ⟨s, hs, hprecedes, -, hahead⟩ : ∃ s : Spot,
      s.Describes stream False (readUnit stream script) ∧
        (Spot.watching stream ⟨allowed, []⟩).Precedes s ∧ s.Holds [] ∧
          (false = false → s.ahead = []) :=
    (Rule.Ensures.meets grammarRules_keep
      (show Surroundings.stream ⟨stream, script, []⟩ = stream from rfl)
      (Spot.describes_watching hconventions) (Rule.ensures_unitElements false hholds).later).1
  cases hw : s.watch with
  | none => exact absurd ((hs.faulty ⟨hprecedes.brackets rfl, hw⟩).resolve_left id) hfaulty
  | some w =>
    obtain ⟨-, -, hbefore, -⟩ := hs.watched w hw
    obtain ⟨v, hv, hallowed⟩ := hprecedes.watch w hw
    cases hv
    obtain ⟨i, hi, hget⟩ := List.mem_iff_getElem.1 ht
    have hlength := hs.length_ahead
    rw [hahead rfl, List.length_nil] at hlength
    rw [Array.length_toList] at hi
    have hget' : stream.tokens[i]? = some t := by
      rw [← Array.getElem?_toList, ← hget]
      exact List.getElem?_eq_getElem _
    have hfound := hbefore i (by omega) t hget' hbears f hf
    rwa [← hallowed] at hfound

/-- In a text in which no error is found the session has the features of all tokens, if and only if
it has those of what is passed over as the calling conventions of function pointer types. -/
theorem admits_iff_conventions {o : Options} {text : List Char} {v : Validation}
    (hv : validate o text = .ok v) (hsuccess : v.success = true) :
    ∃ stream, TokenStream.ofTokens? (activeTokens o.script o.symbols text) = some stream ∧
      (o.gate.Admits (activeTokens o.script o.symbols text) ↔
        Conventions o.gate.Admits stream.tokens.toList) := by
  obtain ⟨body, eof, htokens, heof, hfound⟩ := exists_of_validate_eq_ok hv hsuccess
  have hstream := TokenStream.ofTokens?_append body heof
  have hfitting : ∀ t ∈ body ++ [eof], t.Fitting := htokens ▸ fitting_activeTokens _ _ _
  rw [List.forall_mem_append, List.forall_mem_singleton] at hfitting
  rw [htokens, Gate.Admits.append_iff, ← Gate.Admits.filter_bad_iff hfitting.1]
  refine ⟨_, hstream, fun h ↦ h.1.conventions, fun hconventions ↦
    ⟨fun t ht f hf ↦ ?_, .singleton_eof heof hfitting.2⟩⟩
  by_cases hbears : t.kind.bearsFeatures = true
  · have hallows : Conventions (fun ts ↦ ∀ t ∈ ts, Watch.Allows ⟨(o.gate.allows · = true), []⟩ t)
        (body.filter (·.kind != .bad)) :=
      fun rest hrest hword hstar n hn t ht _ ↦ hconventions rest hrest hword hstar n hn t ht
    have hnotfaulty := not_faulty_of_not_objects (hfound _ hstream)
    rcases found_of_not_faulty hallows hnotfaulty ht hbears hf with hallowed | huse
    · exact hallowed
    · exact Gate.allows_of_not_objects (hfound _ hstream _ huse)
  · rw [hfitting.1 t (List.mem_filter.1 ht).1 (by simpa using hbears)] at hf
    contradiction

/-- A convention with a name in its brackets stands in the way of no feature. -/
theorem admits_iff_conventions_named :
    validate ⟨.concrete .v9, false, [], []⟩
        "class C \x7b delegate* unmanaged[Cdecl]<int> f; int i = 0b1; \x7d".toList =
          .ok ⟨.v9, []⟩ ∧
      Validation.success ⟨.v9, []⟩ = true ∧
      ∃ stream, TokenStream.ofTokens? (activeTokens false []
          "class C \x7b delegate* unmanaged[Cdecl]<int> f; int i = 0b1; \x7d".toList) =
            some stream ∧
        ((Gate.ofChoice (.concrete .v9) []).Admits (activeTokens false []
            "class C \x7b delegate* unmanaged[Cdecl]<int> f; int i = 0b1; \x7d".toList) ↔
          Conventions (Gate.ofChoice (.concrete .v9) []).Admits stream.tokens.toList) := by
  have hv : validate ⟨.concrete .v9, false, [], []⟩
      "class C \x7b delegate* unmanaged[Cdecl]<int> f; int i = 0b1; \x7d".toList =
        .ok ⟨.v9, []⟩ := by decide +kernel
  exact ⟨hv, rfl, admits_iff_conventions hv rfl⟩

/-- No error is found in a text for an old version whose only convention has a raw string in its
brackets. -/
theorem not_admits_of_success :
    ¬∀ (o : Options) (text : List Char) (v : Validation), validate o text = .ok v →
      v.success = true → o.gate.Admits (activeTokens o.script o.symbols text) := by
  intro h
  have hv : validate ⟨.concrete .v9, false, [], []⟩
      "class C \x7b delegate* unmanaged[\"\"\"x\"\"\"]<int> f; \x7d".toList = .ok ⟨.v9, []⟩ := by
    decide +kernel
  have hlacks : (activeTokens false []
      "class C \x7b delegate* unmanaged[\"\"\"x\"\"\"]<int> f; \x7d".toList).any
        (·.features.any fun f ↦ !(Gate.ofChoice (.concrete .v9) []).allows f) = true := by
    decide +kernel
  obtain ⟨t, ht, hf⟩ := List.any_eq_true.1 hlacks
  obtain ⟨f, hf, hallows⟩ := List.any_eq_true.1 hf
  have hadmits : (Gate.ofChoice (.concrete .v9) []).allows f = true := h _ _ _ hv rfl t ht f hf
  rw [hadmits] at hallows
  contradiction

end CSharpCheck
